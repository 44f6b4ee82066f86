import Mathlib.Data.Finset.Card
import Mathlib.Data.List.Nodup
import SolidPod.Foundation.LruCache

/-!
# A guard against replays and its memory

A guard lets a key through unless it let it through less than `ttl` ago. It
keeps no more than the log of what it let through, oldest first, so two entries
of one key lie at least `ttl` apart. If what carries the key is good only up to
a deadline, and the deadline comes within `ttl` of the time it was let through,
then nothing is let through twice.

The guard remembers in a cache that drops what was used least recently. A key
that is seen again is only looked up, so the order of the entries is the order
in which the keys were let through: before a young entry is dropped, as many
other keys must have come as the cache holds. Expired entries may be swept at
any time, which changes nothing as long as there is room.
-/

namespace Foundation

namespace ReplayGuard

variable {κ : Type*}

/-- What was let through, and when. -/
abbrev Log (κ : Type*) := List (κ × Nat)

/-- The last time the key was let through is `ttl` ago or more. -/
def Admits (ttl : Nat) (log : Log κ) (k : κ) (t : Nat) : Prop := ∀ a, (k, a) ∈ log → a + ttl ≤ t

/-- Two entries of one key lie at least `ttl` apart. -/
def Spaced (ttl : Nat) (log : Log κ) : Prop := log.Pairwise fun p q => p.1 = q.1 → p.2 + ttl ≤ q.2

variable {ttl : Nat} {log : Log κ} {k : κ} {t : Nat}

theorem Spaced.nil : Spaced ttl ([] : Log κ) := List.Pairwise.nil

theorem Spaced.concat (hlog : Spaced ttl log) (hadmits : Admits ttl log k t) :
    Spaced ttl (log ++ [(k, t)]) := by
  rw [Spaced, List.pairwise_append]
  refine ⟨hlog, List.pairwise_singleton _ _, ?_⟩
  rintro ⟨j, a⟩ hmem q hq rfl
  rw [List.mem_singleton.mp hq] at hmem ⊢
  exact hadmits a hmem

/-- What is let through before its deadline, and at most `ttl` before it, is
let through once. -/
theorem Spaced.nodup {α : Type*} {as : List α} {key : α → κ} {time : α → Nat}
    (hspaced : Spaced ttl (as.map fun a => (key a, time a))) (closes : α → Nat)
    (hwindow : ∀ a ∈ as, time a < closes a ∧ closes a ≤ time a + ttl) :
    (as.map fun a => (key a, closes a)).Nodup := by
  rw [Spaced, List.pairwise_map] at hspaced
  rw [List.Nodup, List.pairwise_map]
  refine hspaced.imp_of_mem ?_
  intro a b ha hb hapart heq
  obtain ⟨hkey, hcloses⟩ := Prod.mk.inj heq
  have hlater := hapart hkey
  have hopen := (hwindow b hb).1
  have hshort := (hwindow a ha).2
  omega

end ReplayGuard

open LruCache LawfulLruCache

/-! ## The order of the entries -/

/-- A cache whose entries are listed in the order of their last use: a new entry
comes first, and a full cache loses its last one. -/
class OrderedLruCache (L : Type*) {κ υ : Type*} [DecidableEq κ] [LruCache L κ υ] : Prop
    extends LawfulLruCache L where
  iter_put_of_room {l : L} {k : κ} (v : υ)
    (hroom : (peek l k).isSome ∨ (iter l).length < cap l) :
    iter (put l k v) = (k, v) :: (iter l).filter fun e => e.1 ≠ k
  iter_put_of_full {l : L} {k : κ} (v : υ) (hnone : peek l k = none)
    (hfull : cap l ≤ (iter l).length) : iter (put l k v) = (k, v) :: (iter l).dropLast
  iter_pop (l : L) (k : κ) : iter (pop l k) = (iter l).filter fun e => e.1 ≠ k

namespace LruList

variable {κ υ : Type*} [DecidableEq κ]

theorem map_kerase {es : List (Sigma fun _ : κ => υ)} (h : es.NodupKeys) (k : κ) :
    (es.kerase k).map (fun e => (e.1, e.2)) =
      (es.map fun e => (e.1, e.2)).filter fun e => e.1 ≠ k := by
  induction es with
  | nil => rfl
  | cons e es ih =>
      obtain ⟨hnot, hes⟩ := List.nodupKeys_cons.mp h
      by_cases hk : k = e.1
      · have hrest : ∀ p ∈ es.map fun e => (e.1, e.2), decide (p.1 ≠ k) = true := by
          intro p hp
          obtain ⟨e', he', rfl⟩ := List.mem_map.mp hp
          rw [decide_eq_true_iff, hk]
          rintro heq
          exact hnot (heq ▸ List.mem_keys_of_mem he')
        rw [List.kerase_cons_eq hk, List.map_cons, List.filter_cons_of_neg (by simp [hk]),
          List.filter_eq_self.mpr hrest]
      · rw [List.kerase_cons_ne hk, List.map_cons, List.map_cons,
          List.filter_cons_of_pos (by simpa using Ne.symm hk), ih hes]

instance : OrderedLruCache (LruList κ υ) where
  iter_put_of_room {l} k v hroom := by
    change ((l.makeRoom k).insert k v).entries.map (fun e => (e.1, e.2)) = _
    rw [makeRoom_of_room hroom, AList.entries_insert, List.map_cons, map_kerase l.entries.nodupKeys]
    rfl
  iter_put_of_full {l} k v hnone hfull := by
    have hnot : k ∉ l.entries := AList.lookup_eq_none.mp hnone
    have hdrop : l.makeRoom k = dropOldest l.entries := by
      apply if_neg
      rw [not_or, Nat.not_lt]
      refine ⟨hnot, ?_⟩
      change (l.cap : ℕ) ≤ (l.entries.entries.map fun e => (e.1, e.2)).length at hfull
      rwa [List.length_map] at hfull
    have hkeys : k ∉ (dropOldest l.entries).entries.keys := fun h =>
      hnot ((List.Sublist.map _ (List.dropLast_sublist _)).mem h)
    change ((l.makeRoom k).insert k v).entries.map (fun e => (e.1, e.2)) = _
    rw [hdrop, AList.entries_insert, List.kerase_of_notMem_keys hkeys, List.map_cons]
    exact congrArg _ List.map_dropLast
  iter_pop l k := by
    change (l.entries.erase k).entries.map (fun e => (e.1, e.2)) = _
    exact map_kerase l.entries.nodupKeys k

end LruList

/-! ## Entries behind others -/

section Behind

variable {L κ υ : Type*} [LruCache L κ υ] {l : L} {k j : κ} {v w : υ} {ks : Finset κ}

/-- An entry that only entries of some keys were used after. -/
def Behind (l : L) (k : κ) (v : υ) (ks : Finset κ) : Prop :=
  ∃ front back, iter l = front ++ (k, v) :: back ∧ ∀ e ∈ front, e.1 ∈ ks

theorem nodup_keys_of_iter [LawfulLruCache L] {front back : List (κ × υ)}
    (h : iter l = front ++ back) : (front.map Prod.fst).Nodup := by
  have hnodup : ((iter l).map Prod.fst).Nodup := nodup_iter l
  rw [h, List.map_append, List.nodup_append] at hnodup
  exact hnodup.1

theorem Behind.peek_eq [LawfulLruCache L] (h : Behind l k v ks) : peek l k = some v := by
  obtain ⟨front, back, hiter, -⟩ := h
  refine (mem_iter l k v).mp ?_
  rw [hiter]
  exact List.mem_append_right front List.mem_cons_self

theorem Behind.mono {ks' : Finset κ} (h : Behind l k v ks) (hsub : ks ⊆ ks') :
    Behind l k v ks' := by
  obtain ⟨front, back, hiter, hfront⟩ := h
  exact ⟨front, back, hiter, fun e he => hsub (hfront e he)⟩

variable [DecidableEq κ] [OrderedLruCache L]

theorem behind_put_self (l : L) (k : κ) (v : υ) : Behind (put l k v) k v ∅ := by
  by_cases hroom : (peek l k).isSome ∨ (iter l).length < cap l
  · exact ⟨[], _, OrderedLruCache.iter_put_of_room v hroom, fun e he => absurd he List.not_mem_nil⟩
  · rw [not_or, Option.not_isSome_iff_eq_none, Nat.not_lt] at hroom
    exact ⟨[], _, OrderedLruCache.iter_put_of_full v hroom.1 hroom.2,
      fun e he => absurd he List.not_mem_nil⟩

/-- Another key comes in front; what falls out at the end of a full cache was behind as many
others as there is room for. -/
theorem Behind.put (hne : j ≠ k) (h : Behind l k v ks) (w : υ) :
    Behind (put l j w) k v (insert j ks) ∨ cap l ≤ (insert j ks).card := by
  obtain ⟨front, back, hiter, hfront⟩ := h
  have hkeys : ∀ e ∈ (j, w) :: front, e.1 ∈ insert j ks := by
    rw [List.forall_mem_cons]
    exact ⟨Finset.mem_insert_self j ks, fun e he => Finset.mem_insert_of_mem (hfront e he)⟩
  by_cases hroom : (peek l j).isSome ∨ (iter l).length < cap l
  · left
    refine ⟨(j, w) :: front.filter fun e => e.1 ≠ j, back.filter fun e => e.1 ≠ j, ?_,
      fun e he => hkeys e ?_⟩
    · rw [OrderedLruCache.iter_put_of_room w hroom, hiter, List.filter_append,
        List.filter_cons_of_pos (by simpa using Ne.symm hne), List.cons_append]
    · rw [List.mem_cons, List.mem_filter] at he
      exact List.mem_cons.mpr (he.imp_right And.left)
  · rw [not_or, Option.not_isSome_iff_eq_none, Nat.not_lt] at hroom
    obtain ⟨hnone, hfull⟩ := hroom
    rcases List.eq_nil_or_concat back with rfl | ⟨back, last, rfl⟩
    · right
      have hnodup := nodup_keys_of_iter hiter
      have hj : j ∉ front.map Prod.fst := by
        intro hmem
        obtain ⟨e, he, rfl⟩ := List.mem_map.mp hmem
        have hin : (e.1, e.2) ∈ iter l := hiter ▸ List.mem_append_left _ he
        rw [(mem_iter l _ _).mp hin] at hnone
        cases hnone
      have hsub : (((j, w) :: front).map Prod.fst).toFinset ⊆ insert j ks := by
        intro i hi
        obtain ⟨e, he, rfl⟩ := List.mem_map.mp (List.mem_toFinset.mp hi)
        exact hkeys e he
      have hcard := Finset.card_le_card hsub
      rw [List.map_cons, List.toFinset_card_of_nodup (List.nodup_cons.mpr ⟨hj, hnodup⟩),
        List.length_cons, List.length_map] at hcard
      rw [hiter, List.length_append, List.length_singleton] at hfull
      omega
    · left
      refine ⟨(j, w) :: front, back, ?_, hkeys⟩
      rw [OrderedLruCache.iter_put_of_full w hnone hfull, hiter, List.concat_eq_append,
        ← List.cons_append, ← List.append_assoc, List.dropLast_concat, List.cons_append]

/-- A use of one key makes no entry of another one. -/
theorem peek_of_peek_put (hne : j ≠ k) (h : peek (put l j w) k = some v) : peek l k = some v := by
  rw [← mem_iter] at h ⊢
  by_cases hroom : (peek l j).isSome ∨ (iter l).length < cap l
  · rw [OrderedLruCache.iter_put_of_room w hroom, List.mem_cons] at h
    rcases h with heq | hmem
    · exact absurd (Prod.mk.inj heq).1.symm hne
    · exact (List.mem_filter.mp hmem).1
  · rw [not_or, Option.not_isSome_iff_eq_none, Nat.not_lt] at hroom
    rw [OrderedLruCache.iter_put_of_full w hroom.1 hroom.2, List.mem_cons] at h
    rcases h with heq | hmem
    · exact absurd (Prod.mk.inj heq).1.symm hne
    · exact List.mem_of_mem_dropLast hmem

end Behind

/-! ## A memory of keys -/

/-- A clock: how far one time lies behind another one, in whole units, and not less
than zero. -/
structure Clock (τ : Type*) [Preorder τ] where
  age : τ → τ → ℕ
  age_mono {t t' : τ} (s : τ) (h : t ≤ t') : age t s ≤ age t' s
  age_anti {s s' : τ} (t : τ) (h : s ≤ s') : age t s' ≤ age t s

/-- What a memory of keys offers: to let a key through unless it is remembered, and to
sweep what has expired. -/
structure ReplayMemory (S κ τ : Type*) where
  check : S → τ → κ → Bool × S
  sweep : S → τ → S
  size : S → ℕ

namespace ReplayMemory

variable {S L κ τ : Type*}

inductive Call (κ τ : Type*) where
  | check (time : τ) (key : κ)
  | sweep (time : τ)

namespace Call

def time : Call κ τ → τ
  | check t _ => t
  | sweep t => t

def key? : Call κ τ → Option κ
  | check _ k => some k
  | sweep _ => none

def isCheck (c : Call κ τ) : Bool := c.key?.isSome

end Call

/-- Time does not run backwards. -/
def Ordered [Preorder τ] (calls : List (Call κ τ)) : Prop :=
  calls.Pairwise fun c d => c.time ≤ d.time

variable (m : ReplayMemory S κ τ)

def step (s : S) : Call κ τ → S
  | .check t k => (m.check s t k).2
  | .sweep t => m.sweep s t

def final (s : S) (calls : List (Call κ τ)) : S := calls.foldl m.step s

/-- The answer of one call, with its key. -/
def answer (s : S) : Call κ τ → List (κ × Bool)
  | .check t k => [(k, (m.check s t k).1)]
  | .sweep _ => []

def answers (s : S) : List (Call κ τ) → List (κ × Bool)
  | [] => []
  | c :: cs => m.answer s c ++ answers (m.step s c) cs

/-- The keys that were let through, and so recorded. -/
def recorded (s : S) (calls : List (Call κ τ)) : List κ :=
  (m.answers s calls).filterMap fun (k, accepted) => if accepted then some k else none

/-- A memory that, begun at `init`, holds `n` keys and remembers each for `ttl`, unless
`n` other ones are recorded after it. -/
structure Lasting [DecidableEq κ] [Preorder τ] (clock : Clock τ) (ttl n : ℕ) (init : S) :
    Prop where
  spaced : ∀ pre t k mid t', Ordered (pre ++ .check t k :: (mid ++ [.check t' k])) →
    (m.check (m.final init pre) t k).1 = true →
      (m.check (m.final init (pre ++ .check t k :: mid)) t' k).1 = true →
        ttl ≤ clock.age t' t ∨
          n ≤ ((m.recorded (m.final init (pre ++ [.check t k])) mid).toFinset.erase k).card
  unmoved : ∀ calls t k, (m.check (m.final init calls) t k).1 = false →
    (m.check (m.final init calls) t k).2 = m.final init calls
  sweepless : ∀ calls, Ordered calls → (calls.filterMap Call.key?).toFinset.card < n →
    m.answers init calls = m.answers init (calls.filter Call.isCheck)
  bounded : ∀ calls, m.size (m.final init calls) ≤ n

variable {m}

@[simp] theorem final_nil (s : S) : m.final s [] = s := rfl

theorem final_cons (s : S) (c : Call κ τ) (cs : List (Call κ τ)) :
    m.final s (c :: cs) = m.final (m.step s c) cs := rfl

theorem final_append (s : S) (cs ds : List (Call κ τ)) :
    m.final s (cs ++ ds) = m.final (m.final s cs) ds :=
  List.foldl_append

@[simp] theorem recorded_nil (s : S) : m.recorded s [] = [] := rfl

theorem recorded_cons (s : S) (c : Call κ τ) (cs : List (Call κ τ)) :
    m.recorded s (c :: cs) = m.recorded s [c] ++ m.recorded (m.step s c) cs := by
  rw [recorded, recorded, recorded, answers, answers, List.filterMap_append]
  simp [answers]

theorem recorded_sweep (s : S) (t : τ) : m.recorded s [.sweep t] = [] := rfl

theorem recorded_check_of_true {s : S} {t : τ} {k : κ} (h : (m.check s t k).1 = true) :
    m.recorded s [.check t k] = [k] := by
  simp [recorded, answers, answer, h]

theorem recorded_check_of_false {s : S} {t : τ} {k : κ} (h : (m.check s t k).1 = false) :
    m.recorded s [.check t k] = [] := by
  simp [recorded, answers, answer, h]

/-! ## A memory with another state -/

section Wrapped

variable {m' : ReplayMemory L κ τ} {wrap : L → S}

/-- The same memory, in a state that has more to it. -/
structure Wraps (m : ReplayMemory S κ τ) (m' : ReplayMemory L κ τ) (wrap : L → S) : Prop where
  check : ∀ l t k, m.check (wrap l) t k = ((m'.check l t k).1, wrap (m'.check l t k).2)
  sweep : ∀ l t, m.sweep (wrap l) t = wrap (m'.sweep l t)
  size : ∀ l, m.size (wrap l) = m'.size l

theorem Wraps.step (h : Wraps m m' wrap) (l : L) (c : Call κ τ) :
    m.step (wrap l) c = wrap (m'.step l c) := by
  cases c with
  | check t k => exact congrArg Prod.snd (h.check l t k)
  | sweep t => exact h.sweep l t

theorem Wraps.final (h : Wraps m m' wrap) (l : L) (cs : List (Call κ τ)) :
    m.final (wrap l) cs = wrap (m'.final l cs) := by
  induction cs generalizing l with
  | nil => rfl
  | cons c cs ih => rw [final_cons, final_cons, h.step, ih]

theorem Wraps.answers (h : Wraps m m' wrap) (l : L) (cs : List (Call κ τ)) :
    m.answers (wrap l) cs = m'.answers l cs := by
  induction cs generalizing l with
  | nil => rfl
  | cons c cs ih =>
      have hanswer : m.answer (wrap l) c = m'.answer l c := by
        cases c with
        | check t k => rw [answer, answer, h.check]
        | sweep t => rfl
      rw [ReplayMemory.answers, ReplayMemory.answers, hanswer, h.step, ih]

theorem Wraps.lasting [DecidableEq κ] [Preorder τ] {clock : Clock τ} {ttl n : ℕ} {l : L}
    (h : Wraps m m' wrap) (hlasting : m'.Lasting clock ttl n l) :
    m.Lasting clock ttl n (wrap l) where
  spaced pre t k mid t' := by
    rw [h.final, h.final, h.final, h.check, h.check, recorded, h.answers]
    exact hlasting.spaced pre t k mid t'
  unmoved calls t k hfalse := by
    rw [h.final, h.check] at hfalse ⊢
    exact congrArg wrap (hlasting.unmoved calls t k hfalse)
  sweepless calls := by
    rw [h.answers, h.answers]
    exact hlasting.sweepless calls
  bounded calls := by
    rw [h.final, h.size]
    exact hlasting.bounded calls

end Wrapped

/-! ## A memory that is not swept -/

/-- The memory with a sweep that does nothing. -/
def unswept (m : ReplayMemory S κ τ) : ReplayMemory S κ τ := { m with sweep := fun s _ => s }

theorem check_unswept (s : S) (t : τ) (k : κ) : m.unswept.check s t k = m.check s t k := rfl

theorem final_unswept (s : S) (cs : List (Call κ τ)) :
    m.unswept.final s cs = m.final s (cs.filter Call.isCheck) := by
  induction cs generalizing s with
  | nil => rfl
  | cons c cs ih =>
      rw [final_cons, ih]
      cases c with
      | check t k => rfl
      | sweep t => rfl

theorem answers_unswept (s : S) (cs : List (Call κ τ)) :
    m.unswept.answers s cs = m.answers s (cs.filter Call.isCheck) := by
  induction cs generalizing s with
  | nil => rfl
  | cons c cs ih =>
      rw [answers, ih]
      cases c with
      | check t k => rfl
      | sweep t => rfl

theorem Lasting.unswept [DecidableEq κ] [Preorder τ] {clock : Clock τ} {ttl n : ℕ} {init : S}
    (h : m.Lasting clock ttl n init) : m.unswept.Lasting clock ttl n init where
  spaced pre t k mid t' hordered := by
    have hchecks := List.Pairwise.filter Call.isCheck hordered
    rw [List.filter_append, List.filter_cons_of_pos rfl, List.filter_append,
      List.filter_cons_of_pos rfl] at hchecks
    rw [final_unswept, final_unswept, final_unswept, recorded, answers_unswept,
      List.filter_append, List.filter_cons_of_pos rfl, List.filter_append,
      List.filter_cons_of_pos rfl]
    exact h.spaced _ t k _ t' hchecks
  unmoved calls t k := by
    rw [final_unswept]
    exact h.unmoved _ t k
  sweepless calls _ _ := by
    rw [answers_unswept, answers_unswept, List.filter_filter]
    simp
  bounded calls := by
    rw [final_unswept]
    exact h.bounded _

/-! ## The memory of a cache -/

section Cache

variable [LruCache L κ τ] [Preorder τ] (clock : Clock τ) (ttl : ℕ)

/-- The key was recorded less than `ttl` ago, as far as the cache knows. -/
def Recent (l : L) (t : τ) (k : κ) : Prop := ∃ seen ∈ peek l k, clock.age t seen < ttl

/-- The keys that were recorded `ttl` ago or earlier. -/
def expired (l : L) (t : τ) : List κ :=
  (iter l).filterMap fun (k, seen) => if ttl ≤ clock.age t seen then some k else none

/-- The memory whose state is a cache of the times at which the keys were recorded. -/
def ofCache : ReplayMemory L κ τ where
  check l t k :=
    if (peek l k).any fun seen => clock.age t seen < ttl then (false, l) else (true, put l k t)
  sweep l t := (expired clock ttl l t).foldl pop l
  size l := (iter l).length

variable {clock ttl} {l : L} {t : τ} {k : κ}

theorem check_of_recent (h : Recent clock ttl l t k) :
    (ofCache clock ttl).check l t k = (false, l) := by
  obtain ⟨seen, hpeek, hage⟩ := h
  rw [Option.mem_def] at hpeek
  exact if_pos (by simpa [hpeek] using hage)

theorem check_of_not_recent (h : ¬ Recent clock ttl l t k) :
    (ofCache clock ttl).check l t k = (true, put l k t) := by
  refine if_neg fun hany => h ?_
  obtain ⟨seen, hpeek, hage⟩ := (Option.any_eq_true _ _).mp hany
  exact ⟨seen, hpeek, of_decide_eq_true hage⟩

theorem check_eq_true_iff :
    ((ofCache clock ttl).check l t k).1 = true ↔ ¬ Recent clock ttl l t k := by
  by_cases h : Recent clock ttl l t k
  · simp [check_of_recent h, h]
  · simp [check_of_not_recent h, h]

/-! ### Sweeping -/

section Sweep

variable [LawfulLruCache L]

theorem mem_expired {j : κ} :
    j ∈ expired clock ttl l t ↔ ∃ seen ∈ peek l j, ttl ≤ clock.age t seen := by
  rw [expired, List.mem_filterMap]
  constructor
  · rintro ⟨⟨i, seen⟩, hentry, hsome⟩
    obtain ⟨hexpired, heq⟩ := Option.ite_none_right_eq_some.mp hsome
    cases heq
    exact ⟨seen, (mem_iter _ _ _).mp hentry, hexpired⟩
  · rintro ⟨seen, hpeek, hexpired⟩
    exact ⟨(j, seen), (mem_iter _ _ _).mpr hpeek, if_pos hexpired⟩

theorem peek_sweep (l : L) (t : τ) (k : κ) : peek ((ofCache clock ttl).sweep l t) k =
    (peek l k).filter fun seen => clock.age t seen < ttl := by
  by_cases hexpired : k ∈ expired clock ttl l t
  · refine (peek_foldl_pop_of_mem hexpired).trans ?_
    obtain ⟨seen, hpeek, hle⟩ := mem_expired.mp hexpired
    rw [hpeek, Option.filter_some_neg (by simpa using hle)]
  · refine (peek_foldl_pop_of_not_mem hexpired).trans ?_
    cases hpeek : peek l k with
    | none => rfl
    | some seen =>
        have hyoung : ¬ ttl ≤ clock.age t seen := fun hle =>
          hexpired (mem_expired.mpr ⟨seen, hpeek, hle⟩)
        rw [Option.filter_some_pos (by simpa using hyoung)]

theorem cap_sweep (l : L) (t : τ) : cap ((ofCache clock ttl).sweep l t) = cap l :=
  cap_foldl_pop _ l

theorem cap_check (l : L) (t : τ) (k : κ) :
    cap ((ofCache clock ttl).check l t k).2 = cap l := by
  by_cases h : Recent clock ttl l t k
  · rw [check_of_recent h]
  · rw [check_of_not_recent h, cap_put]

theorem cap_step (l : L) (c : Call κ τ) : cap ((ofCache clock ttl).step l c) = cap l := by
  cases c with
  | check t k => exact cap_check l t k
  | sweep t => exact cap_sweep l t

theorem cap_final (l : L) (cs : List (Call κ τ)) :
    cap ((ofCache clock ttl).final l cs) = cap l := by
  induction cs generalizing l with
  | nil => rfl
  | cons c cs ih => rw [final_cons, ih, cap_step]

/-! ### With room, sweeping changes nothing -/

/-- Two caches that remember the same from now on, and only keys among `ks`. -/
structure Agree (clock : Clock τ) (ttl : ℕ) (ks : Finset κ) (l l' : L) (now : τ) : Prop where
  recent : ∀ k t, now ≤ t → (Recent clock ttl l t k ↔ Recent clock ttl l' t k)
  left : ∀ k, (peek l k).isSome → k ∈ ks
  right : ∀ k, (peek l' k).isSome → k ∈ ks

variable {ks : Finset κ} {l' : L} {now : τ}

omit [LawfulLruCache L] in
theorem Agree.mono (h : Agree clock ttl ks l l' now) (hle : now ≤ t) :
    Agree clock ttl ks l l' t where
  recent k t' ht' := h.recent k t' (hle.trans ht')
  left := h.left
  right := h.right

theorem recent_put_iff [DecidableEq κ] (hks : ∀ k, (peek l k).isSome → k ∈ ks)
    (hroom : ks.card < cap l) {j : κ} {t' : τ} : Recent clock ttl (put l k t) t' j ↔
      if j = k then clock.age t' t < ttl else Recent clock ttl l t' j := by
  by_cases hj : j = k
  · rw [if_pos hj, Recent, hj, peek_put_self]
    simp
  · rw [if_neg hj, Recent, Recent,
      peek_put_of_ne t hj (Or.inr ((length_iter_le_card hks).trans_lt hroom))]

omit [Preorder τ] in
theorem isSome_peek_put [DecidableEq κ] (hks : ∀ k, (peek l k).isSome → k ∈ ks)
    (hroom : ks.card < cap l) (hk : k ∈ ks) (j : κ) (hj : (peek (put l k t) j).isSome) :
    j ∈ ks := by
  by_cases hjk : j = k
  · rwa [hjk]
  · rw [peek_put_of_ne t hjk (Or.inr ((length_iter_le_card hks).trans_lt hroom))] at hj
    exact hks j hj

theorem Agree.check [DecidableEq κ] (h : Agree clock ttl ks l l' t) (hk : k ∈ ks)
    (hroom : ks.card < cap l) (hroom' : ks.card < cap l') :
    ((ofCache clock ttl).check l t k).1 = ((ofCache clock ttl).check l' t k).1 ∧
      Agree clock ttl ks ((ofCache clock ttl).check l t k).2
        ((ofCache clock ttl).check l' t k).2 t := by
  by_cases hrecent : Recent clock ttl l t k
  · rw [check_of_recent hrecent, check_of_recent ((h.recent k t le_rfl).mp hrecent)]
    exact ⟨rfl, h⟩
  · rw [check_of_not_recent hrecent,
      check_of_not_recent (mt (h.recent k t le_rfl).mpr hrecent)]
    refine ⟨rfl, ?_, isSome_peek_put h.left hroom hk, isSome_peek_put h.right hroom' hk⟩
    intro j t' ht'
    rw [recent_put_iff h.left hroom, recent_put_iff h.right hroom']
    by_cases hj : j = k
    · rw [if_pos hj, if_pos hj]
    · rw [if_neg hj, if_neg hj]
      exact h.recent j t' ht'

theorem Agree.sweep (h : Agree clock ttl ks l l' t) :
    Agree clock ttl ks ((ofCache clock ttl).sweep l t) l' t where
  recent k t' ht' := by
    rw [← h.recent k t' ht', Recent, Recent, peek_sweep]
    constructor
    · rintro ⟨seen, hpeek, hage⟩
      rw [Option.mem_def, Option.filter_eq_some_iff] at hpeek
      exact ⟨seen, hpeek.1, hage⟩
    · rintro ⟨seen, hpeek, hage⟩
      refine ⟨seen, ?_, hage⟩
      rw [Option.mem_def, Option.filter_eq_some_iff]
      exact ⟨hpeek, by simpa using (clock.age_mono seen ht').trans_lt hage⟩
  left k hk := by
    rw [peek_sweep] at hk
    obtain ⟨seen, hseen⟩ := Option.isSome_iff_exists.mp hk
    rw [Option.filter_eq_some_iff] at hseen
    exact h.left k (by rw [hseen.1]; rfl)
  right := h.right

theorem Agree.answers [DecidableEq κ] {cs : List (Call κ τ)}
    (h : Agree clock ttl ks l l' now) (hnow : ∀ c ∈ cs, now ≤ c.time) (hordered : Ordered cs)
    (hkeys : ∀ c ∈ cs, ∀ k ∈ c.key?, k ∈ ks) (hroom : ks.card < cap l)
    (hroom' : ks.card < cap l') :
    (ofCache clock ttl).answers l cs = (ofCache clock ttl).answers l' (cs.filter Call.isCheck) := by
  induction cs generalizing l l' now with
  | nil => rfl
  | cons c cs ih =>
      obtain ⟨hle, hcs⟩ := List.pairwise_cons.mp hordered
      obtain ⟨hkey, hrest⟩ := List.forall_mem_cons.mp hkeys
      have hlater := h.mono (hnow c List.mem_cons_self)
      cases c with
      | sweep t =>
          have hswept : Agree clock ttl ks ((ofCache clock ttl).sweep l t) l' t := hlater.sweep
          exact ih hswept hle hcs hrest (by rwa [cap_step]) hroom'
      | check t k =>
          obtain ⟨hanswer, hagree⟩ := Agree.check (t := t) hlater (hkey k rfl) hroom hroom'
          rw [List.filter_cons_of_pos rfl, ReplayMemory.answers, ReplayMemory.answers, answer,
            answer, hanswer]
          exact congrArg _ (ih hagree hle hcs hrest (by rwa [cap_step]) (by rwa [cap_step]))

end Sweep

/-! ### A young entry is dropped only after many others -/

section Order

variable [DecidableEq κ] [OrderedLruCache L]

omit [Preorder τ] in
theorem iter_foldl_pop (ks : List κ) (l : L) :
    iter (ks.foldl pop l) = (iter l).filter fun e => e.1 ∉ ks := by
  induction ks generalizing l with
  | nil => simp
  | cons j ks ih =>
      rw [List.foldl_cons, ih, OrderedLruCache.iter_pop, List.filter_filter]
      congr 1
      funext e
      simp [Bool.and_comm]

omit [Preorder τ] in
theorem length_iter_put_le {l : L} (h : (iter l).length ≤ cap l) (k : κ) (t : τ) :
    (iter (put l k t)).length ≤ cap l := by
  have hpos := (cap l).pos
  by_cases hroom : (peek l k).isSome ∨ (iter l).length < cap l
  · rw [OrderedLruCache.iter_put_of_room t hroom, List.length_cons]
    rcases hroom with hpresent | hlt
    · obtain ⟨seen, hseen⟩ := Option.isSome_iff_exists.mp hpresent
      have hmem : (k, seen) ∈ iter l := (mem_iter l k seen).mpr hseen
      have hlt : ((iter l).filter fun e => decide (e.1 ≠ k)).length < (iter l).length :=
        List.length_filter_lt_length_iff_exists.mpr ⟨(k, seen), hmem, by simp⟩
      omega
    · have hle := List.length_filter_le (fun e : κ × τ => decide (e.1 ≠ k)) (iter l)
      omega
  · rw [not_or, Option.not_isSome_iff_eq_none, Nat.not_lt] at hroom
    rw [OrderedLruCache.iter_put_of_full t hroom.1 hroom.2, List.length_cons, List.length_dropLast]
    omega

theorem length_iter_step_le {l : L} (h : (iter l).length ≤ cap l) (c : Call κ τ) :
    (iter ((ofCache clock ttl).step l c)).length ≤ cap l := by
  cases c with
  | check t k =>
      by_cases hrecent : Recent clock ttl l t k
      · rwa [step, check_of_recent hrecent]
      · rw [step, check_of_not_recent hrecent]
        exact length_iter_put_le h k t
  | sweep t =>
      refine Nat.le_trans ?_ h
      exact (congrArg List.length (iter_foldl_pop _ l)).trans_le (List.length_filter_le _ _)

theorem length_iter_final_le {l : L} (h : (iter l).length ≤ cap l) (cs : List (Call κ τ)) :
    (iter ((ofCache clock ttl).final l cs)).length ≤ cap l := by
  induction cs generalizing l with
  | nil => exact h
  | cons c cs ih =>
      have hcap : cap ((ofCache clock ttl).step l c) = cap l := cap_step l c
      have hstep : (iter ((ofCache clock ttl).step l c)).length ≤ cap l := length_iter_step_le h c
      rw [← hcap] at hstep ⊢
      exact ih hstep

/-- The key is still held with a time no earlier than `t`, behind others that were recorded
since; or it has expired; or as many others as there is room for were recorded. -/
def Held (clock : Clock τ) (ttl : ℕ) (l : L) (t : τ) (k : κ) (since : List κ) (now : τ) : Prop :=
  (∃ seen front back, t ≤ seen ∧ iter l = front ++ (k, seen) :: back ∧
      ∀ e ∈ front, e.1 ∈ since ∧ e.1 ≠ k) ∨
    ttl ≤ clock.age now t ∨ cap l ≤ (since.toFinset.erase k).card

variable {since : List κ} {now : τ}

omit [OrderedLruCache L] in
theorem Held.mono (h : Held clock ttl l t k since now) {now' : τ} (hle : now ≤ now') :
    Held clock ttl l t k since now' := by
  rcases h with hheld | hexpired | hmany
  · exact Or.inl hheld
  · exact Or.inr (Or.inl (hexpired.trans (clock.age_mono t hle)))
  · exact Or.inr (Or.inr hmany)

omit [Preorder τ] [OrderedLruCache L] in
theorem behind_of_front {seen : τ} {front back : List (κ × τ)}
    (hiter : iter l = front ++ (k, seen) :: back) (hfront : ∀ e ∈ front, e.1 ∈ since ∧ e.1 ≠ k) :
    Behind l k seen (since.toFinset.erase k) :=
  ⟨front, back, hiter, fun e he =>
    Finset.mem_erase.mpr ⟨(hfront e he).2, List.mem_toFinset.mpr (hfront e he).1⟩⟩

omit [OrderedLruCache L] in
theorem held_of_behind {seen : τ} (h : Behind l k seen (since.toFinset.erase k))
    (hle : t ≤ seen) : Held clock ttl l t k since now := by
  obtain ⟨front, back, hiter, hfront⟩ := h
  refine Or.inl ⟨seen, front, back, hle, hiter, fun e he => ?_⟩
  obtain ⟨hne, hmem⟩ := Finset.mem_erase.mp (hfront e he)
  exact ⟨List.mem_toFinset.mp hmem, hne⟩

/-- A key that is put stands first. -/
theorem held_put (l : L) (k : κ) (hle : t ≤ now) : Held clock ttl (put l k now) t k since now :=
  held_of_behind ((behind_put_self l k now).mono (Finset.empty_subset _)) hle

theorem Held.put {j : κ} (hne : j ≠ k)
    (h : ∃ seen front back, t ≤ seen ∧ iter l = front ++ (k, seen) :: back ∧
      ∀ e ∈ front, e.1 ∈ since ∧ e.1 ≠ k) :
    Held clock ttl (put l j now) t k (since ++ [j]) now := by
  obtain ⟨seen, front, back, hle, hiter, hfront⟩ := h
  have hkeys : insert j (since.toFinset.erase k) = (since ++ [j]).toFinset.erase k := by
    rw [List.toFinset_append, List.toFinset_cons, List.toFinset_nil, Finset.union_comm,
      insert_empty_eq, ← Finset.insert_eq, Finset.erase_insert_of_ne hne]
  rcases (behind_of_front hiter hfront).put hne now with hbehind | hfull
  · rw [hkeys] at hbehind
    exact held_of_behind hbehind hle
  · right
    right
    rwa [cap_put, ← hkeys]

theorem Held.sweep (h : ∃ seen front back, t ≤ seen ∧ iter l = front ++ (k, seen) :: back ∧
      ∀ e ∈ front, e.1 ∈ since ∧ e.1 ≠ k) :
    Held clock ttl ((ofCache clock ttl).sweep l now) t k since now := by
  obtain ⟨seen, front, back, hle, hiter, hfront⟩ := h
  by_cases hexpired : ttl ≤ clock.age now seen
  · exact Or.inr (Or.inl (hexpired.trans (clock.age_anti now hle)))
  · left
    have hpeek : peek l k = some seen := (mem_iter l k seen).mp (hiter ▸ by simp)
    have hstays : k ∉ expired clock ttl l now := by
      intro hmem
      obtain ⟨seen', hseen', hold⟩ := mem_expired.mp hmem
      rw [hpeek] at hseen'
      cases hseen'
      exact hexpired hold
    have hswept : iter ((ofCache clock ttl).sweep l now) = _ := iter_foldl_pop _ l
    rw [hiter, List.filter_append, List.filter_cons_of_pos (by simpa using hstays)] at hswept
    exact ⟨seen, _, _, hle, hswept, fun e he => hfront e (List.mem_of_mem_filter he)⟩

theorem Held.step {c : Call κ τ} (h : Held clock ttl l t k since now) (hstart : t ≤ now)
    (hnow : now ≤ c.time) :
    Held clock ttl ((ofCache clock ttl).step l c) t k
      (since ++ (ofCache clock ttl).recorded l [c]) c.time := by
  rcases h.mono hnow with hheld | hexpired | hmany
  · cases c with
    | sweep t' =>
        rw [recorded_sweep, List.append_nil]
        exact Held.sweep hheld
    | check t' j =>
        by_cases hrecent : Recent clock ttl l t' j
        · have hcheck := check_of_recent hrecent
          rw [recorded_check_of_false (by rw [hcheck]), List.append_nil, ReplayMemory.step, hcheck]
          exact Or.inl hheld
        · have hcheck := check_of_not_recent hrecent
          rw [recorded_check_of_true (by rw [hcheck]), ReplayMemory.step, hcheck]
          by_cases hj : j = k
          · rw [hj]
            exact held_put l k (hstart.trans hnow)
          · exact Held.put hj hheld
  · exact Or.inr (Or.inl hexpired)
  · right
    right
    rw [cap_step]
    refine hmany.trans (Finset.card_le_card (Finset.erase_subset_erase k ?_))
    rw [List.toFinset_append]
    exact Finset.subset_union_left

theorem Held.final {cs : List (Call κ τ)} (h : Held clock ttl l t k since now) (hstart : t ≤ now)
    (hnow : ∀ c ∈ cs, now ≤ c.time) (hordered : Ordered cs) {last : τ} (hlast : now ≤ last)
    (hbefore : ∀ c ∈ cs, c.time ≤ last) :
    Held clock ttl ((ofCache clock ttl).final l cs) t k
      (since ++ (ofCache clock ttl).recorded l cs) last := by
  induction cs generalizing l since now with
  | nil =>
      rw [recorded_nil, List.append_nil]
      exact h.mono hlast
  | cons c cs ih =>
      obtain ⟨hle, hcs⟩ := List.pairwise_cons.mp hordered
      obtain ⟨hc, hrest⟩ := List.forall_mem_cons.mp hnow
      obtain ⟨hclast, hrestlast⟩ := List.forall_mem_cons.mp hbefore
      rw [recorded_cons, ← List.append_assoc]
      exact ih (h.step hstart hc) (hstart.trans hc) hle hcs hclast hrestlast

omit [Preorder τ] in
theorem iter_new (n : ℕ+) : iter (new n : L) = [] := by
  refine List.eq_nil_iff_forall_not_mem.mpr fun e he => ?_
  have hpeek := (mem_iter (new n : L) e.1 e.2).mp he
  rw [peek_new] at hpeek
  cases hpeek

/-- A cache with room for `n` keys is a lasting memory of `n` keys. -/
theorem lasting_ofCache (clock : Clock τ) (ttl : ℕ) (n : ℕ+) :
    (ofCache clock ttl).Lasting clock ttl n (new n : L) where
  spaced pre t k mid t' hordered hfirst hagain := by
    obtain ⟨-, hcalls, -⟩ := List.pairwise_append.mp hordered
    obtain ⟨hafter, hmid⟩ := List.pairwise_cons.mp hcalls
    obtain ⟨hmid, -, hbefore⟩ := List.pairwise_append.mp hmid
    have hcheck := check_of_not_recent (check_eq_true_iff.mp hfirst)
    have hstate : (ofCache clock ttl).final (new n : L) (pre ++ [.check t k]) =
        put ((ofCache clock ttl).final (new n : L) pre) k t := by
      rw [final_append, final_cons, final_nil, ReplayMemory.step, hcheck]
    have hrun : (ofCache clock ttl).final (new n : L) (pre ++ .check t k :: mid) =
        (ofCache clock ttl).final (put ((ofCache clock ttl).final (new n : L) pre) k t) mid := by
      rw [← hstate, List.append_cons, final_append]
    have hput : Held clock ttl (put ((ofCache clock ttl).final (new n : L) pre) k t) t k [] t :=
      held_put _ k le_rfl
    have hlast : t ≤ t' := hafter (.check t' k) (by simp)
    have hheld := hput.final le_rfl (fun c hc => hafter c (List.mem_append_left _ hc)) hmid hlast
      fun c hc => hbefore c hc (.check t' k) (List.mem_singleton_self _)
    rw [List.nil_append, ← hrun, ← hstate] at hheld
    rcases hheld with ⟨seen, front, back, hle, hiter, -⟩ | hexpired | hmany
    · left
      have hpeek : peek ((ofCache clock ttl).final (new n : L) (pre ++ .check t k :: mid)) k =
          some seen := (mem_iter _ k seen).mp (hiter ▸ by simp)
      have hforgot := check_eq_true_iff.mp hagain
      have hold : ttl ≤ clock.age t' seen :=
        Nat.not_lt.mp fun hage => hforgot ⟨seen, hpeek, hage⟩
      exact hold.trans (clock.age_anti t' hle)
    · exact Or.inl hexpired
    · right
      rwa [cap_final, cap_new] at hmany
  unmoved calls t k hfalse := by
    have hrecent : Recent clock ttl ((ofCache clock ttl).final (new n : L) calls) t k := by
      by_contra hforgot
      rw [check_eq_true_iff.mpr hforgot] at hfalse
      cases hfalse
    rw [check_of_recent hrecent]
  sweepless calls hordered hfew := by
    cases calls with
    | nil => rfl
    | cons c cs =>
        have hagree : Agree clock ttl ((c :: cs).filterMap Call.key?).toFinset (new n : L) (new n)
            c.time :=
          ⟨fun k t _ => Iff.rfl, fun k hk => by simp at hk, fun k hk => by simp at hk⟩
        refine hagree.answers ?_ hordered ?_ (by rwa [cap_new]) (by rwa [cap_new])
        · rw [List.forall_mem_cons]
          exact ⟨le_rfl, (List.pairwise_cons.mp hordered).1⟩
        · intro d hd k hk
          exact List.mem_toFinset.mpr (List.mem_filterMap.mpr ⟨d, hd, hk⟩)
  bounded calls := by
    have hle : (iter ((ofCache clock ttl).final (new n : L) calls)).length ≤ cap (new n : L) :=
      length_iter_final_le (by rw [iter_new]; exact Nat.zero_le _) calls
    rwa [cap_new] at hle

end Order

end Cache

end ReplayMemory

end Foundation
