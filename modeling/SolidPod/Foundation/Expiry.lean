import Mathlib.Data.List.Chain
import Mathlib.Data.List.Induction
import Mathlib.Logic.Function.Basic
import SolidPod.Foundation.Schedule

/-!
# Entries that expire

An entry that is given up when nobody asks for it is there as long as it was
asked for in time, each time anew: it holds the value that was put last, and no
two touches of it are further apart than the time to live. An answer that is kept
so that it need not be fetched again is given out while it is fresh. Calls that
look an answer up, fetch it and keep it in separate steps may keep an answer that
is older than the one it replaces. What any of them answers was fetched no longer
ago than the time to live and the longest time from a fetch to its keeping.
-/

namespace Foundation

namespace Expiry

variable {ι K V : Type*}

/-! ## Entries that are given up -/

inductive Use (V : Type*) where
  | put (v : V) (stamp : ℕ)
  | ask (now renewed : ℕ)
  | drop

/-- An entry after a use of it, with the time of its last touch. -/
def use (ttl : ℕ) (o : Option (V × ℕ)) : Use V → Option (V × ℕ)
  | .put v stamp => some (v, stamp)
  | .ask now renewed => (o.filter fun e => now - e.2 ≤ ttl).map fun e => (e.1, renewed)
  | .drop => none

def after (ttl : ℕ) (us : List (Use V)) : Option (V × ℕ) := us.foldl (use ttl) none

/-- Questions, each with the time it is asked at and the time it is answered at. -/
def asks (l : List (ℕ × ℕ)) : List (Use V) := l.map fun a => .ask a.1 a.2

/-- Each of the touches comes in time. -/
def InTime (ttl : ℕ) (touches : List (ℕ × ℕ)) : Prop :=
  touches.IsChain fun a b => b.1 - a.2 ≤ ttl

/-- The last value was put in with a stamp and asked for since. -/
def Touched (us : List (Use V)) (v : V) (stamp : ℕ) (l : List (ℕ × ℕ)) : Prop :=
  ∃ pre, us = pre ++ .put v stamp :: asks l

variable {ttl now renewed stamp last : ℕ} {us : List (Use V)} {u : Use V} {v : V}
  {l : List (ℕ × ℕ)}

theorem after_concat : after ttl (us ++ [u]) = use ttl (after ttl us) u := List.foldl_append

theorem use_ask_of_le (h : now - last ≤ ttl) :
    use ttl (some (v, last)) (.ask now renewed) = some (v, renewed) := by
  rw [use, Option.filter_some_pos (by exact decide_eq_true h)]
  rfl

theorem use_ask_of_lt (h : ttl < now - last) :
    use ttl (some (v, last)) (.ask now renewed) = none := by
  rw [use, Option.filter_some_neg (by exact decide_eq_false (Nat.not_le.mpr h))]
  rfl

theorem asks_concat :
    (asks (l ++ [(now, renewed)]) : List (Use V)) = asks l ++ [.ask now renewed] :=
  List.map_append

theorem inTime_concat_iff {b : ℕ × ℕ} : InTime ttl (l ++ [b]) ↔
    InTime ttl l ∧ ∀ a, l.getLast? = some a → b.1 - a.2 ≤ ttl := by
  rw [InTime, List.isChain_append]
  constructor
  · rintro ⟨hchain, -, hlast⟩
    exact ⟨hchain, fun a ha => hlast a ha b rfl⟩
  · rintro ⟨hchain, hlast⟩
    refine ⟨hchain, List.isChain_singleton _, ?_⟩
    intro a ha c hc
    cases hc
    exact hlast a ha

theorem touched_put_iff {w : V} {s : ℕ} :
    Touched (us ++ [.put w s]) v stamp l ↔ w = v ∧ s = stamp ∧ l = [] := by
  constructor
  · rintro ⟨pre, heq⟩
    cases l using List.reverseRecOn with
    | nil =>
        obtain ⟨-, hput⟩ := List.append_inj' heq rfl
        cases hput
        exact ⟨rfl, rfl, rfl⟩
    | append_singleton l a =>
        rw [asks_concat, ← List.cons_append, ← List.append_assoc] at heq
        cases List.singleton_inj.mp (List.append_inj' heq rfl).2
  · rintro ⟨rfl, rfl, rfl⟩
    exact ⟨us, rfl⟩

theorem touched_ask_iff : Touched (us ++ [.ask now renewed]) v stamp l ↔
    ∃ l', l = l' ++ [(now, renewed)] ∧ Touched us v stamp l' := by
  constructor
  · rintro ⟨pre, heq⟩
    cases l using List.reverseRecOn with
    | nil =>
        cases List.singleton_inj.mp (List.append_inj' heq rfl).2
    | append_singleton l a =>
        rw [asks_concat, ← List.cons_append, ← List.append_assoc] at heq
        obtain ⟨hus, hask⟩ := List.append_inj' heq rfl
        cases List.singleton_inj.mp hask
        exact ⟨l, rfl, pre, hus⟩
  · rintro ⟨l', rfl, pre, rfl⟩
    exact ⟨pre, by rw [asks_concat, List.append_assoc, List.cons_append]⟩

theorem not_touched_drop : ¬ Touched (us ++ [.drop]) v stamp l := by
  rintro ⟨pre, heq⟩
  cases l using List.reverseRecOn with
  | nil => cases List.singleton_inj.mp (List.append_inj' heq rfl).2
  | append_singleton l a =>
      rw [asks_concat, ← List.cons_append, ← List.append_assoc] at heq
      cases List.singleton_inj.mp (List.append_inj' heq rfl).2

/-- An entry holds the value that was put last, if it was touched in time ever since. -/
theorem after_eq_some_iff : after ttl us = some (v, last) ↔
    ∃ stamp l, Touched us v stamp l ∧ InTime ttl ((stamp, stamp) :: l) ∧
      ∃ a, ((stamp, stamp) :: l).getLast? = some a ∧ a.2 = last := by
  induction us using List.reverseRecOn generalizing last with
  | nil =>
      refine iff_of_false (fun h => by cases h) ?_
      rintro ⟨stamp, l, ⟨pre, heq⟩, -⟩
      cases pre <;> cases heq
  | append_singleton us u ih =>
      rw [after_concat]
      cases u with
      | put w s =>
          simp only [touched_put_iff]
          constructor
          · intro h
            cases h
            exact ⟨last, [], ⟨rfl, rfl, rfl⟩, List.isChain_singleton _, _, rfl, rfl⟩
          · rintro ⟨stamp, l, ⟨rfl, rfl, rfl⟩, -, a, ha, rfl⟩
            cases ha
            rfl
      | drop =>
          refine iff_of_false (fun h => by cases h) ?_
          rintro ⟨stamp, l, htouched, -⟩
          exact not_touched_drop htouched
      | ask now renewed =>
          simp only [touched_ask_iff, use, Option.map_eq_some_iff, Option.filter_eq_some_iff]
          constructor
          · rintro ⟨⟨w, s⟩, ⟨hus, hfresh⟩, heq⟩
            cases heq
            obtain ⟨stamp, l, htouched, hchain, b, hb, rfl⟩ := ih.mp hus
            refine ⟨stamp, l ++ [(now, last)], ⟨l, rfl, htouched⟩, ?_, ?_⟩
            · rw [← List.cons_append, inTime_concat_iff]
              refine ⟨hchain, ?_⟩
              intro a ha
              rw [hb] at ha
              cases ha
              exact of_decide_eq_true hfresh
            · rw [← List.cons_append, List.getLast?_concat]
              exact ⟨_, rfl, rfl⟩
          · rintro ⟨stamp, _, ⟨l, rfl, htouched⟩, hchain, b, hb, rfl⟩
            rw [← List.cons_append, inTime_concat_iff] at hchain
            rw [← List.cons_append, List.getLast?_concat] at hb
            cases hb
            obtain ⟨a, ha⟩ : ∃ a, ((stamp, stamp) :: l).getLast? = some a :=
              ⟨_, List.getLast?_cons⟩
            refine ⟨(v, a.2), ⟨ih.mpr ⟨stamp, l, htouched, hchain.1, a, ha, rfl⟩, ?_⟩, rfl⟩
            exact decide_eq_true (hchain.2 a ha)

/-- A question is answered with the value that was put last, if it comes in time and each one
before it did. -/
theorem use_ask_iff : use ttl (after ttl us) (.ask now renewed) = some (v, renewed) ↔
    ∃ stamp l, Touched us v stamp l ∧ InTime ttl ((stamp, stamp) :: (l ++ [(now, renewed)])) := by
  rw [← after_concat, after_eq_some_iff]
  simp only [touched_ask_iff]
  constructor
  · rintro ⟨stamp, _, ⟨l, rfl, htouched⟩, hchain, -⟩
    exact ⟨stamp, l, htouched, hchain⟩
  · rintro ⟨stamp, l, htouched, hchain⟩
    refine ⟨stamp, _, ⟨l, rfl, htouched⟩, hchain, ?_⟩
    rw [← List.cons_append, List.getLast?_concat]
    exact ⟨_, rfl, rfl⟩

/-- An entry is there but too old, if the question is the first one that comes late. -/
theorem exists_after_iff : (∃ last, after ttl us = some (v, last) ∧ ttl < now - last) ↔
    ∃ stamp l, Touched us v stamp l ∧ InTime ttl ((stamp, stamp) :: l) ∧
      ¬ InTime ttl ((stamp, stamp) :: (l ++ [(now, renewed)])) := by
  simp only [after_eq_some_iff, ← List.cons_append, inTime_concat_iff]
  constructor
  · rintro ⟨_, ⟨stamp, l, htouched, hchain, a, ha, rfl⟩, hlate⟩
    refine ⟨stamp, l, htouched, hchain, ?_⟩
    rintro ⟨-, hall⟩
    exact absurd (hall a ha) (Nat.not_le.mpr hlate)
  · rintro ⟨stamp, l, htouched, hchain, hlate⟩
    obtain ⟨a, ha⟩ : ∃ a, ((stamp, stamp) :: l).getLast? = some a := ⟨_, List.getLast?_cons⟩
    refine ⟨a.2, ⟨stamp, l, htouched, hchain, a, ha, rfl⟩, ?_⟩
    by_contra hnot
    refine hlate ⟨hchain, ?_⟩
    intro b hb
    rw [ha] at hb
    cases hb
    exact Nat.not_lt.mp hnot

/-! ## Answers that are kept -/

/-- How far a call has got that looks an answer up before it fetches it. -/
inductive MemoPhase (V : Type*) where
  | ready
  | asking
  | holding (v : V) (fetched : ℕ)
  | answered (v : V) (time : ℕ)
  | failed

structure Memo (ι K V : Type*) where
  entries : K → Option (V × ℕ)
  phase : ι → MemoPhase V
  now : ℕ

/-- The next step of a call, with the time it is taken at. -/
inductive MemoMove (ι V : Type*) where
  | look (i : ι) (time : ℕ)
  | fetch (i : ι) (time : ℕ) (answer : Option V)
  | keep (i : ι) (time : ℕ)

def MemoMove.time : MemoMove ι V → ℕ
  | .look _ t | .fetch _ t _ | .keep _ t => t

section Memo

variable [DecidableEq ι] [DecidableEq K] (isFresh : V → ℕ → Bool) (key : ι → K)

def lookup (entries : K → Option (V × ℕ)) (k : K) (now : ℕ) : Option V :=
  ((entries k).filter fun e => isFresh e.1 (now - e.2)).map Prod.fst

/-- What a call on its own answers, and what it leaves kept. -/
def consult (entries : K → Option (V × ℕ)) (k : K) (looked kept : ℕ) (fetched : Option V) :
    Option V × (K → Option (V × ℕ)) :=
  match lookup isFresh entries k looked with
  | some v => (some v, entries)
  | none =>
    match fetched with
    | some v => (some v, Function.update entries k (some (v, kept)))
    | none => (none, entries)

def Memo.goTo (m : Memo ι K V) (i : ι) (time : ℕ) (phase : MemoPhase V) : Memo ι K V :=
  { m with phase := Function.update m.phase i phase, now := time }

def Memo.start (entries : K → Option (V × ℕ)) (now : ℕ) : Memo ι K V :=
  ⟨entries, fun _ => .ready, now⟩

/-- The call has come to an end with an answer or without one. -/
def Memo.Ended (m : Memo ι K V) (i : ι) (answer : Option V) : Prop :=
  match answer with
  | some v => ∃ t, m.phase i = .answered v t
  | none => m.phase i = .failed

/-- The clock does not go back. -/
def memoStep (m : Memo ι K V) (move : MemoMove ι V) : Option (Memo ι K V) :=
  if move.time < m.now then none else
  match move with
  | .look i t =>
    match m.phase i with
    | .ready =>
      match lookup isFresh m.entries (key i) t with
      | some v => some (m.goTo i t (.answered v t))
      | none => some (m.goTo i t .asking)
    | _ => none
  | .fetch i t answer =>
    match m.phase i with
    | .asking =>
      match answer with
      | some v => some (m.goTo i t (.holding v t))
      | none => some (m.goTo i t .failed)
    | _ => none
  | .keep i t =>
    match m.phase i with
    | .holding v _ =>
      some { m.goTo i t (.answered v t) with
        entries := Function.update m.entries (key i) (some (v, t)) }
    | _ => none

variable (gives : K → ℕ → V → Prop) (delay : ℕ) (ttl : V → ℕ)

/-- What is fetched is what the network gives then, and it is kept within the delay. -/
structure Timely (m : Memo ι K V) (move : MemoMove ι V) : Prop where
  given : ∀ i t v, move = .fetch i t (some v) → gives (key i) t v
  kept : ∀ i t v f, move = .keep i t → m.phase i = .holding v f → t ≤ f + delay

/-- Every answer was given by the network, no longer ago than the time to live and the delay. -/
def Recent (m : Memo ι K V) : Prop :=
  ∀ i v t, m.phase i = .answered v t → ∃ f, gives (key i) f v ∧ f ≤ t ∧ t ≤ f + delay + ttl v

/-- What is kept was given within the delay before it was kept. -/
def KeptInTime (entries : K → Option (V × ℕ)) (now : ℕ) : Prop :=
  ∀ k v s, entries k = some (v, s) → s ≤ now ∧ ∃ f, gives k f v ∧ f ≤ s ∧ s ≤ f + delay

structure MemoInv (m : Memo ι K V) : Prop where
  entries : KeptInTime gives delay m.entries m.now
  holding : ∀ i v f, m.phase i = .holding v f → gives (key i) f v ∧ f ≤ m.now
  recent : Recent key gives delay ttl m

variable {isFresh key gives delay ttl} {m m' : Memo ι K V} {move : MemoMove ι V} {i : ι}

omit [DecidableEq K] in
theorem goTo_phase (t : ℕ) (phase : MemoPhase V) (j : ι) :
    (m.goTo i t phase).phase j = if j = i then phase else m.phase j :=
  Function.update_apply _ _ _ _

omit [DecidableEq ι] [DecidableEq K] in
theorem KeptInTime.mono {entries : K → Option (V × ℕ)} {now now' : ℕ}
    (h : KeptInTime gives delay entries now) (hle : now ≤ now') :
    KeptInTime gives delay entries now' := by
  intro k v s hk
  exact ⟨(h k v s hk).1.trans hle, (h k v s hk).2⟩

omit [DecidableEq K] in
/-- A call goes on, and what it holds or answers is in time. -/
theorem MemoInv.goTo (h : MemoInv key gives delay ttl m) {t : ℕ} (ht : m.now ≤ t)
    {phase : MemoPhase V}
    (hholding : ∀ v f, phase = .holding v f → gives (key i) f v ∧ f ≤ t)
    (hanswered : ∀ v t', phase = .answered v t' →
      ∃ f, gives (key i) f v ∧ f ≤ t' ∧ t' ≤ f + delay + ttl v) :
    MemoInv key gives delay ttl (m.goTo i t phase) where
  entries := h.entries.mono ht
  holding j v f hj := by
    rw [goTo_phase] at hj
    split_ifs at hj with hji
    · rw [hji]
      exact hholding v f hj
    · exact ⟨(h.holding j v f hj).1, (h.holding j v f hj).2.trans ht⟩
  recent j v t' hj := by
    rw [goTo_phase] at hj
    split_ifs at hj with hji
    · rw [hji]
      exact hanswered v t' hj
    · exact h.recent j v t' hj

theorem MemoInv.step (h : MemoInv key gives delay ttl m)
    (hfresh : ∀ v age, isFresh v age = true → age ≤ ttl v)
    (htimely : Timely key gives delay m move) (hstep : memoStep isFresh key m move = some m') :
    MemoInv key gives delay ttl m' := by
  rw [memoStep.eq_def] at hstep
  split_ifs at hstep with hback
  have ht : m.now ≤ move.time := Nat.le_of_not_lt hback
  cases move with
  | look i t =>
      simp only at hstep
      split at hstep
      · split at hstep
        · rename_i v hlookup
          cases hstep
          refine h.goTo ht (fun _ _ hnone => by cases hnone) ?_
          intro w t' hanswered
          cases hanswered
          obtain ⟨⟨w, s⟩, hentry, rfl⟩ := Option.map_eq_some_iff.mp hlookup
          obtain ⟨hentry, hage⟩ := Option.filter_eq_some_iff.mp hentry
          obtain ⟨hs, f, hgives, hf, hdelay⟩ := h.entries _ _ _ hentry
          have hle : t - s ≤ ttl w := hfresh w (t - s) hage
          have hst : s ≤ t := hs.trans ht
          exact ⟨f, hgives, hf.trans hst,
            (Nat.sub_le_iff_le_add'.mp hle).trans (Nat.add_le_add_right hdelay _)⟩
        · cases hstep
          exact h.goTo ht (fun _ _ hnone => by cases hnone) (fun _ _ hnone => by cases hnone)
      · cases hstep
  | fetch i t answer =>
      simp only at hstep
      split at hstep
      · cases answer with
        | none =>
            cases hstep
            exact h.goTo ht (fun _ _ hnone => by cases hnone) (fun _ _ hnone => by cases hnone)
        | some v =>
            cases hstep
            refine h.goTo ht ?_ (fun _ _ hnone => by cases hnone)
            intro w f hholding
            cases hholding
            exact ⟨htimely.given i t v rfl, le_rfl⟩
      · cases hstep
  | keep i t =>
      simp only at hstep
      split at hstep
      · rename_i v f hphase
        cases hstep
        obtain ⟨hgives, hf⟩ := h.holding i v f hphase
        have hdelay := htimely.kept i t v f rfl hphase
        have hnext : MemoInv key gives delay ttl (m.goTo i t (.answered v t)) := by
          refine h.goTo ht (fun _ _ hnone => by cases hnone) ?_
          intro w t' hanswered
          cases hanswered
          exact ⟨f, hgives, hf.trans ht, hdelay.trans (Nat.le_add_right _ _)⟩
        refine ⟨?_, hnext.holding, hnext.recent⟩
        intro k w s hk
        have hk' : Function.update m.entries (key i) (some (v, t)) k = some (w, s) := hk
        by_cases hkey : k = key i
        · rw [hkey, Function.update_self] at hk'
          cases hk'
          exact ⟨le_rfl, f, hkey ▸ hgives, hf.trans ht, hdelay⟩
        · rw [Function.update_of_ne hkey] at hk'
          exact hnext.entries k w s hk'
      · cases hstep

/-- A call that is not disturbed does what `consult` does. -/
theorem exists_run_consult (hphase : m.phase i = .ready) {looked kept : ℕ}
    (hlooked : m.now ≤ looked) (hkept : looked ≤ kept) (fetched : Option V) :
    ∃ sched m', Schedule.run (memoStep isFresh key) m sched = some m' ∧
      m'.Ended i (consult isFresh m.entries (key i) looked kept fetched).1 ∧
      m'.entries = (consult isFresh m.entries (key i) looked kept fetched).2 := by
  have hlook : ¬ looked < m.now := Nat.not_lt.mpr hlooked
  simp only [consult]
  cases hcached : lookup isFresh m.entries (key i) looked with
  | some v =>
      refine ⟨[.look i looked], m.goTo i looked (.answered v looked), ?_, ⟨looked, ?_⟩, rfl⟩
      · simp only [Schedule.run_cons, memoStep, MemoMove.time, if_neg hlook, hphase, hcached]
        rfl
      · rw [goTo_phase, if_pos rfl]
  | none =>
      have hfirst : memoStep isFresh key m (.look i looked) = some (m.goTo i looked .asking) := by
        simp only [memoStep, MemoMove.time, if_neg hlook, hphase, hcached]
      have hasking : (m.goTo i looked .asking).phase i = .asking := by
        rw [goTo_phase, if_pos rfl]
      have hnow : ¬ looked < (m.goTo i looked .asking).now := lt_irrefl looked
      cases fetched with
      | none =>
          refine ⟨[.look i looked, .fetch i looked none],
            (m.goTo i looked .asking).goTo i looked .failed, ?_, ?_, rfl⟩
          · rw [Schedule.run_cons, hfirst]
            simp only [Option.bind_some, Schedule.run_cons, memoStep, MemoMove.time, if_neg hnow,
              hasking]
            rfl
          · exact (goTo_phase looked _ i).trans (if_pos rfl)
      | some v =>
          have hholding : ((m.goTo i looked .asking).goTo i looked (.holding v looked)).phase i =
              .holding v looked := by
            rw [goTo_phase, if_pos rfl]
          have hlast : ¬ kept < ((m.goTo i looked .asking).goTo i looked (.holding v looked)).now :=
            Nat.not_lt.mpr hkept
          refine ⟨[.look i looked, .fetch i looked (some v), .keep i kept],
            { ((m.goTo i looked .asking).goTo i looked (.holding v looked)).goTo i kept
                (.answered v kept) with
              entries := Function.update m.entries (key i) (some (v, kept)) },
            ?_, ⟨kept, (goTo_phase kept _ i).trans (if_pos rfl)⟩, rfl⟩
          · rw [Schedule.run_cons, hfirst, Option.bind_some, Schedule.run_cons]
            simp only [memoStep, MemoMove.time, if_neg hnow, hasking, Option.bind_some,
              Schedule.run_cons, if_neg hlast, hholding]
            rfl

/-- In every interleaving of calls each answer is recent. -/
theorem recent_of_run {entries : K → Option (V × ℕ)} {now : ℕ} {sched : List (MemoMove ι V)}
    (hfresh : ∀ v age, isFresh v age = true → age ≤ ttl v)
    (hentries : KeptInTime gives delay entries now)
    (halong : Schedule.Along (memoStep isFresh key) (Timely key gives delay) (.start entries now)
      sched)
    (hrun : Schedule.run (memoStep isFresh key) (.start entries now) sched = some m) :
    Recent key gives delay ttl m := by
  have hstart : MemoInv key gives delay ttl (Memo.start entries now : Memo ι K V) := by
    refine ⟨hentries, ?_, ?_⟩
    · intro i v f hphase
      cases hphase
    · intro i v t hphase
      cases hphase
  exact (Schedule.induct (P := fun _ m => MemoInv key gives delay ttl m) hrun hstart halong
    fun _ _ _ _ hinv htimely hstep => hinv.step hfresh htimely hstep).recent

end Memo

end Expiry

end Foundation
