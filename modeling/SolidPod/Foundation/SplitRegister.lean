import Mathlib.Data.List.Induction
import Mathlib.Data.List.Nodup
import Mathlib.Logic.Function.Basic

/-!
# A register in two cells

A value has two parts that are kept in two cells. A writer writes the first part
and then the second, and a reader reads them in that order; the steps of all
writers and readers are interleaved in any way, and the second step of a writer
may fail. A reader gets the two parts of one value exactly when the writer that
wrote the first cell last before its first read is the one that wrote the second
cell last before its second read.
-/

namespace Foundation

namespace SplitRegister

/-- The steps of writers `π` and readers `γ`. -/
inductive Event (π γ : Type*) where
  | writeFirst (i : π)
  | writeSecond (i : π)
  | failSecond (i : π)
  | readFirst (g : γ)
  | readSecond (g : γ)
  deriving DecidableEq

/-- How the two cells of a state are read and written. The first may be empty. -/
structure Access (S α β : Type*) where
  writeFirst : S → α → S
  writeSecond : S → β → S
  readFirst : S → Option α
  readSecond : S → β

/-- The cells are two cells: a write is read back, and the other cell keeps what
it has. The second cell can be written once the first has been. -/
structure Access.Lawful {S α β : Type*} (m : Access S α β) (Ready Opened : S → Prop) :
    Prop where
  ready_of_opened : ∀ s, Opened s → Ready s
  opened_writeFirst : ∀ s a, Ready s → Opened (m.writeFirst s a)
  opened_writeSecond : ∀ s b, Opened s → Opened (m.writeSecond s b)
  readFirst_writeFirst : ∀ s a, Ready s → m.readFirst (m.writeFirst s a) = some a
  readSecond_writeFirst : ∀ s a, Ready s → m.readSecond (m.writeFirst s a) = m.readSecond s
  readFirst_writeSecond : ∀ s b, Opened s → m.readFirst (m.writeSecond s b) = m.readFirst s
  readSecond_writeSecond : ∀ s b, Opened s → m.readSecond (m.writeSecond s b) = b

variable {S α β π γ : Type*}

/-- Each step is taken at most once, the second one after the first. -/
structure Interleaving (es : List (Event π γ)) : Prop where
  nodup : es.Nodup
  writeSecond : ∀ pre i post, es = pre ++ .writeSecond i :: post → .writeFirst i ∈ pre
  failSecond : ∀ pre i post, es = pre ++ .failSecond i :: post → .writeFirst i ∈ pre
  readSecond : ∀ pre g post, es = pre ++ .readSecond g :: post → .readFirst g ∈ pre
  oneSecond : ∀ i, ¬(.writeSecond i ∈ es ∧ .failSecond i ∈ es)

theorem Interleaving.of_append {es es' : List (Event π γ)} (h : Interleaving (es ++ es')) :
    Interleaving es where
  nodup := h.nodup.of_append_left
  writeSecond pre i post hes := h.writeSecond pre i (post ++ es') (by simp [hes])
  failSecond pre i post hes := h.failSecond pre i (post ++ es') (by simp [hes])
  readSecond pre g post hes := h.readSecond pre g (post ++ es') (by simp [hes])
  oneSecond i hi := h.oneSecond i
    ⟨List.mem_append_left es' hi.1, List.mem_append_left es' hi.2⟩

/-- The step can come next. -/
def Allowed (es : List (Event π γ)) (e : Event π γ) : Prop :=
  e ∉ es ∧ match e with
    | .writeSecond i => .writeFirst i ∈ es ∧ .failSecond i ∉ es
    | .failSecond i => .writeFirst i ∈ es ∧ .writeSecond i ∉ es
    | .readSecond g => .readFirst g ∈ es
    | _ => True

instance [DecidableEq π] [DecidableEq γ] (es : List (Event π γ)) (e : Event π γ) :
    Decidable (Allowed es e) := by
  unfold Allowed
  cases e <;> infer_instance

theorem interleaving_nil : Interleaving ([] : List (Event π γ)) where
  nodup := List.nodup_nil
  writeSecond pre i post h := absurd h (by simp)
  failSecond pre i post h := absurd h (by simp)
  readSecond pre g post h := absurd h (by simp)
  oneSecond i h := absurd h.1 List.not_mem_nil

/-- The last step of a schedule, or a step before it. -/
theorem split_concat {es pre post : List (Event π γ)} {e e' : Event π γ}
    (h : es ++ [e] = pre ++ e' :: post) :
    (es = pre ∧ e = e') ∨ ∃ post', es = pre ++ e' :: post' := by
  induction post using List.reverseRecOn with
  | nil =>
      obtain ⟨hes, he⟩ := List.append_inj' h rfl
      exact Or.inl ⟨hes, List.singleton_inj.1 he⟩
  | append_singleton post x _ =>
      rw [← List.cons_append, ← List.append_assoc] at h
      exact Or.inr ⟨post, (List.append_inj' h rfl).1⟩

theorem Interleaving.concat {es : List (Event π γ)} (h : Interleaving es) {e : Event π γ}
    (he : Allowed es e) : Interleaving (es ++ [e]) where
  nodup := List.nodup_append.2 ⟨h.nodup, List.nodup_singleton e, by
    intro a ha b hb
    rw [List.mem_singleton] at hb
    rintro rfl
    exact he.1 (hb ▸ ha)⟩
  writeSecond pre i post hes := by
    rcases split_concat hes with ⟨rfl, rfl⟩ | ⟨post', hsplit⟩
    · exact he.2.1
    · exact h.writeSecond pre i post' hsplit
  failSecond pre i post hes := by
    rcases split_concat hes with ⟨rfl, rfl⟩ | ⟨post', hsplit⟩
    · exact he.2.1
    · exact h.failSecond pre i post' hsplit
  readSecond pre g post hes := by
    rcases split_concat hes with ⟨rfl, rfl⟩ | ⟨post', hsplit⟩
    · exact he.2
    · exact h.readSecond pre g post' hsplit
  oneSecond i := by
    rintro ⟨hw, hf⟩
    simp only [List.mem_append, List.mem_singleton] at hw hf
    rcases hw with hw | rfl
    · rcases hf with hf | rfl
      · exact h.oneSecond i ⟨hw, hf⟩
      · exact he.2.2 hw
    · rcases hf with hf | hf
      · exact he.2.2 hf
      · exact absurd hf (by simp)

/-- The writer that has written the first cell last. -/
def lastFirst : List (Event π γ) → Option π :=
  fun es => es.reverse.findSome? fun
    | .writeFirst i => some i
    | _ => none

/-- The writer that has written the second cell last. -/
def lastSecond : List (Event π γ) → Option π :=
  fun es => es.reverse.findSome? fun
    | .writeSecond i => some i
    | _ => none

theorem lastFirst_append (es : List (Event π γ)) (e : Event π γ) :
    lastFirst (es ++ [e]) = match e with
      | .writeFirst i => some i
      | _ => lastFirst es := by
  rw [lastFirst, List.reverse_append, List.reverse_singleton, List.singleton_append,
    List.findSome?_cons]
  cases e <;> rfl

theorem lastSecond_append (es : List (Event π γ)) (e : Event π γ) :
    lastSecond (es ++ [e]) = match e with
      | .writeSecond i => some i
      | _ => lastSecond es := by
  rw [lastSecond, List.reverse_append, List.reverse_singleton, List.singleton_append,
    List.findSome?_cons]
  cases e <;> rfl

theorem mem_of_lastFirst {es : List (Event π γ)} {i : π} (h : lastFirst es = some i) :
    .writeFirst i ∈ es := by
  obtain ⟨e, he, hi⟩ := List.exists_of_findSome?_eq_some h
  rw [List.mem_reverse] at he
  cases e with
  | writeFirst j =>
      obtain rfl : j = i := Option.some.inj hi
      exact he
  | writeSecond j => exact absurd hi (by simp)
  | failSecond j => exact absurd hi (by simp)
  | readFirst g => exact absurd hi (by simp)
  | readSecond g => exact absurd hi (by simp)

theorem mem_of_lastSecond {es : List (Event π γ)} {i : π} (h : lastSecond es = some i) :
    .writeSecond i ∈ es := by
  obtain ⟨e, he, hi⟩ := List.exists_of_findSome?_eq_some h
  rw [List.mem_reverse] at he
  cases e with
  | writeSecond j =>
      obtain rfl : j = i := Option.some.inj hi
      exact he
  | writeFirst j => exact absurd hi (by simp)
  | failSecond j => exact absurd hi (by simp)
  | readFirst g => exact absurd hi (by simp)
  | readSecond g => exact absurd hi (by simp)

/-- Every reader reads the two cells as one and the same writer left them. -/
def Matched (es : List (Event π γ)) : Prop :=
  ∀ pre g mid post, es = pre ++ .readFirst g :: (mid ++ .readSecond g :: post) →
    lastFirst pre = lastSecond (pre ++ .readFirst g :: mid)

/-- No writer writes while these steps are taken. -/
def Quiet (es : List (Event π γ)) : Prop :=
  ∀ i, .writeFirst i ∉ es ∧ .writeSecond i ∉ es

/-- No writer fails at its second step, unless another one has written since. -/
def FailsOvertaken (es : List (Event π γ)) : Prop :=
  ∀ pre i mid post, es = pre ++ .writeFirst i :: (mid ++ .failSecond i :: post) → ¬Quiet mid

theorem lastFirst_append_quiet {pre mid : List (Event π γ)} (h : Quiet mid) :
    lastFirst (pre ++ mid) = lastFirst pre := by
  induction mid using List.reverseRecOn with
  | nil => rw [List.append_nil]
  | append_singleton mid e ih =>
      have hmid : Quiet mid := fun i =>
        ⟨fun hi => (h i).1 (List.mem_append_left _ hi),
          fun hi => (h i).2 (List.mem_append_left _ hi)⟩
      rw [← List.append_assoc, lastFirst_append, ih hmid]
      cases e with
      | writeFirst i => exact absurd (by simp) (h i).1
      | writeSecond i => rfl
      | failSecond i => rfl
      | readFirst g => rfl
      | readSecond g => rfl

theorem Interleaving.of_prefix {es es' : List (Event π γ)} (h : Interleaving es)
    (hpre : es' <+: es) : Interleaving es' := by
  obtain ⟨rest, rfl⟩ := hpre
  exact h.of_append

/-- When all writers write a value of their own, the value tells the writer. -/
theorem elim_injective {δ : Type*} {f : π → δ} {d : δ} (hf : Function.Injective f)
    (hd : ∀ i, f i ≠ d) {x y : Option π} (h : x.elim d f = y.elim d f) : x = y := by
  cases x with
  | none =>
      cases y with
      | none => rfl
      | some j => exact absurd h.symm (hd j)
  | some i =>
      cases y with
      | none => exact absurd h (hd i)
      | some j => rw [hf h]

section Run

variable [DecidableEq γ] (m : Access S α β) (val : π → α × β)

/-- The state, what each reader holds, and the values read so far. -/
structure Config (S α β γ : Type*) where
  state : S
  view : γ → Option α
  log : List (γ × α × β)

def start (s : S) : Config S α β γ := ⟨s, fun _ => none, []⟩

def step (c : Config S α β γ) : Event π γ → Config S α β γ
  | .writeFirst i => { c with state := m.writeFirst c.state (val i).1 }
  | .writeSecond i => { c with state := m.writeSecond c.state (val i).2 }
  | .failSecond _ => c
  | .readFirst g => { c with view := Function.update c.view g (m.readFirst c.state) }
  | .readSecond g =>
    match c.view g with
    | none => c
    | some a =>
      { c with
        view := Function.update c.view g none
        log := c.log ++ [(g, a, m.readSecond c.state)] }

def run (s : S) (es : List (Event π γ)) : Config S α β γ := es.foldl (step m val) (start s)

theorem run_append_singleton (s : S) (es : List (Event π γ)) (e : Event π γ) :
    run m val s (es ++ [e]) = step m val (run m val s es) e := by
  rw [run, List.foldl_append]
  rfl

theorem state_step_readSecond (c : Config S α β γ) (g : γ) :
    (step m val c (.readSecond g)).state = c.state := by
  rw [step]
  split <;> rfl

theorem view_step_readFirst (c : Config S α β γ) (g : γ) :
    (step m val c (.readFirst g)).view = Function.update c.view g (m.readFirst c.state) := rfl

theorem view_step_readSecond (c : Config S α β γ) (g : γ) :
    (step m val c (.readSecond g)).view = Function.update c.view g none := by
  rw [step]
  split
  · rename_i hnone
    rw [← hnone, Function.update_eq_self]
  · rfl

/-- Every value read was written by one writer, or was there before; and a
writer that failed, with no other one writing meanwhile, has changed nothing. -/
structure Untorn (s : S) (es : List (Event π γ)) : Prop where
  read : ∀ g a b, (g, a, b) ∈ (run m val s es).log →
    (some a = m.readFirst s ∧ b = m.readSecond s) ∨
      ∃ i, .writeFirst i ∈ es ∧ .writeSecond i ∈ es ∧ val i = (a, b)
  failed : ∀ pre i mid post, es = pre ++ .writeFirst i :: (mid ++ .failSecond i :: post) →
    Quiet mid →
    m.readFirst (run m val s (pre ++ .writeFirst i :: (mid ++ [.failSecond i]))).state =
        m.readFirst (run m val s pre).state ∧
      m.readSecond (run m val s (pre ++ .writeFirst i :: (mid ++ [.failSecond i]))).state =
        m.readSecond (run m val s pre).state

variable {m val} {Ready Opened : S → Prop}

theorem ready_run (val : π → α × β) (hm : m.Lawful Ready Opened) {s : S} (hs : Ready s)
    {es : List (Event π γ)}
    (h : Interleaving es) : Ready (run m val s es).state ∧
      ((∃ i, .writeFirst i ∈ es) → Opened (run m val s es).state) := by
  induction es using List.reverseRecOn with
  | nil => exact ⟨hs, fun ⟨i, hi⟩ => absurd hi List.not_mem_nil⟩
  | append_singleton es e ih =>
      obtain ⟨hready, hopened⟩ := ih h.of_append
      rw [run_append_singleton]
      cases e with
      | writeFirst i =>
          have := hm.opened_writeFirst _ (val i).1 hready
          exact ⟨hm.ready_of_opened _ this, fun _ => this⟩
      | writeSecond i =>
          have := hm.opened_writeSecond _ (val i).2 (hopened ⟨i, h.writeSecond es i [] rfl⟩)
          exact ⟨hm.ready_of_opened _ this, fun _ => this⟩
      | failSecond i => exact ⟨hready, fun ⟨j, hj⟩ => hopened ⟨j, by simpa using hj⟩⟩
      | readFirst g => exact ⟨hready, fun ⟨j, hj⟩ => hopened ⟨j, by simpa using hj⟩⟩
      | readSecond g =>
          rw [state_step_readSecond]
          exact ⟨hready, fun ⟨j, hj⟩ => hopened ⟨j, by simpa using hj⟩⟩

/-- The two cells hold what the writers that wrote them last have written. -/
theorem cells_run (val : π → α × β) (hm : m.Lawful Ready Opened) {s : S} (hs : Ready s)
    {es : List (Event π γ)}
    (h : Interleaving es) :
    m.readFirst (run m val s es).state =
        ((lastFirst es).elim (m.readFirst s) fun i => some (val i).1) ∧
      m.readSecond (run m val s es).state =
        (lastSecond es).elim (m.readSecond s) fun i => (val i).2 := by
  induction es using List.reverseRecOn with
  | nil => exact ⟨rfl, rfl⟩
  | append_singleton es e ih =>
      obtain ⟨hfirst, hsecond⟩ := ih h.of_append
      obtain ⟨hready, hopened⟩ := ready_run val hm hs h.of_append
      rw [run_append_singleton, lastFirst_append, lastSecond_append]
      cases e with
      | writeFirst i =>
          exact ⟨hm.readFirst_writeFirst _ _ hready,
            (hm.readSecond_writeFirst _ _ hready).trans hsecond⟩
      | writeSecond i =>
          have hopen := hopened ⟨i, h.writeSecond es i [] rfl⟩
          exact ⟨(hm.readFirst_writeSecond _ _ hopen).trans hfirst,
            hm.readSecond_writeSecond _ _ hopen⟩
      | failSecond i => exact ⟨hfirst, hsecond⟩
      | readFirst g => exact ⟨hfirst, hsecond⟩
      | readSecond g =>
          rw [state_step_readSecond]
          exact ⟨hfirst, hsecond⟩

/-- What a reader holds it has read in its first step. -/
theorem exists_readFirst_of_view {s : S} {es : List (Event π γ)} {g : γ} {a : α}
    (h : (run m val s es).view g = some a) :
    ∃ pre mid, es = pre ++ .readFirst g :: mid ∧
      m.readFirst (run m val s pre).state = some a := by
  induction es using List.reverseRecOn with
  | nil => exact absurd h (by simp [run, start])
  | append_singleton es e ih =>
      have hkept : (run m val s es).view g = some a →
          ∃ pre mid, es ++ [e] = pre ++ .readFirst g :: mid ∧
            m.readFirst (run m val s pre).state = some a := by
        intro hview
        obtain ⟨pre, mid, rfl, hread⟩ := ih hview
        exact ⟨pre, mid ++ [e], by simp, hread⟩
      rw [run_append_singleton] at h
      cases e with
      | writeFirst i => exact hkept h
      | writeSecond i => exact hkept h
      | failSecond i => exact hkept h
      | readFirst g' =>
          by_cases hg : g = g'
          · subst hg
            refine ⟨es, [], rfl, ?_⟩
            rwa [view_step_readFirst, Function.update_self] at h
          · refine hkept ?_
            rwa [view_step_readFirst, Function.update_of_ne hg] at h
      | readSecond g' =>
          refine hkept ?_
          rw [view_step_readSecond] at h
          by_cases hg : g = g'
          · rw [hg, Function.update_self] at h
            exact absurd h (by simp)
          · rwa [Function.update_of_ne hg] at h

/-- A value read comes from the first cell at one step and from the second cell
at a later one. -/
theorem exists_reads_of_log {s : S} {es : List (Event π γ)} {g : γ} {a : α} {b : β}
    (h : (g, a, b) ∈ (run m val s es).log) :
    ∃ pre mid post, es = pre ++ .readFirst g :: (mid ++ .readSecond g :: post) ∧
      m.readFirst (run m val s pre).state = some a ∧
      m.readSecond (run m val s (pre ++ .readFirst g :: mid)).state = b := by
  induction es using List.reverseRecOn with
  | nil => exact absurd h List.not_mem_nil
  | append_singleton es e ih =>
      have hkept : (g, a, b) ∈ (run m val s es).log →
          ∃ pre mid post, es ++ [e] = pre ++ .readFirst g :: (mid ++ .readSecond g :: post) ∧
            m.readFirst (run m val s pre).state = some a ∧
            m.readSecond (run m val s (pre ++ .readFirst g :: mid)).state = b := by
        intro hlog
        obtain ⟨pre, mid, post, rfl, hreads⟩ := ih hlog
        exact ⟨pre, mid, post ++ [e], by simp, hreads⟩
      rw [run_append_singleton] at h
      cases e with
      | writeFirst i => exact hkept h
      | writeSecond i => exact hkept h
      | failSecond i => exact hkept h
      | readFirst g' => exact hkept h
      | readSecond g' =>
          rw [step] at h
          split at h
          · exact hkept h
          · rename_i held hheld
            rw [List.mem_append, List.mem_singleton] at h
            rcases h with h | h
            · exact hkept h
            · obtain ⟨rfl, hpair⟩ := Prod.mk.inj h
              obtain ⟨rfl, rfl⟩ := Prod.mk.inj hpair
              obtain ⟨pre, mid, rfl, hread⟩ := exists_readFirst_of_view hheld
              exact ⟨pre, mid, [], by simp, hread, rfl⟩

theorem view_run_append {s : S} {es mid : List (Event π γ)} {g : γ}
    (h : .readFirst g ∉ mid ∧ .readSecond g ∉ mid) :
    (run m val s (es ++ mid)).view g = (run m val s es).view g := by
  induction mid using List.reverseRecOn with
  | nil => rw [List.append_nil]
  | append_singleton mid e ih =>
      simp only [List.mem_append, List.mem_singleton, not_or] at h
      have hmid := ih ⟨h.1.1, h.2.1⟩
      rw [← List.append_assoc, run_append_singleton, ← hmid]
      cases e with
      | writeFirst i => rfl
      | writeSecond i => rfl
      | failSecond i => rfl
      | readFirst g' =>
          rw [view_step_readFirst]
          exact Function.update_of_ne (fun hg => h.1.2 (congrArg Event.readFirst hg)) _ _
      | readSecond g' =>
          rw [view_step_readSecond]
          exact Function.update_of_ne (fun hg => h.2.2 (congrArg Event.readSecond hg)) _ _

theorem log_run_append {s : S} (es post : List (Event π γ)) {x : γ × α × β}
    (h : x ∈ (run m val s es).log) : x ∈ (run m val s (es ++ post)).log := by
  induction post using List.reverseRecOn with
  | nil => rwa [List.append_nil]
  | append_singleton post e ih =>
      rw [← List.append_assoc, run_append_singleton]
      cases e with
      | writeFirst i => exact ih
      | writeSecond i => exact ih
      | failSecond i => exact ih
      | readFirst g => exact ih
      | readSecond g =>
          rw [step]
          split
          · exact ih
          · exact List.mem_append_left _ ih

/-- A reader that has taken both its steps has read a value. -/
theorem mem_log_of_reads {s : S} {pre mid post : List (Event π γ)} {g : γ} {a : α}
    (hnodup : (pre ++ .readFirst g :: (mid ++ .readSecond g :: post)).Nodup)
    (hread : m.readFirst (run m val s pre).state = some a) :
    (g, a, m.readSecond (run m val s (pre ++ .readFirst g :: mid)).state) ∈
      (run m val s (pre ++ .readFirst g :: (mid ++ .readSecond g :: post))).log := by
  have hmid : .readFirst g ∉ mid ∧ .readSecond g ∉ mid := by
    have htail := (List.nodup_append.1 hnodup).2.1
    rw [List.nodup_cons] at htail
    refine ⟨fun hmem => htail.1 (List.mem_append_left _ hmem), fun hmem => ?_⟩
    exact (List.nodup_append.1 htail.2).2.2 _ hmem _ List.mem_cons_self rfl
  have hview : (run m val s (pre ++ .readFirst g :: mid)).view g = some a := by
    rw [List.append_cons, view_run_append hmid, run_append_singleton, view_step_readFirst,
      Function.update_self, hread]
  have hsplit : pre ++ .readFirst g :: (mid ++ .readSecond g :: post) =
      ((pre ++ .readFirst g :: mid) ++ [.readSecond g]) ++ post := by simp
  rw [hsplit]
  refine log_run_append _ post ?_
  rw [run_append_singleton, step, hview]
  exact List.mem_append_right _ (List.mem_singleton.2 rfl)

/-- Matched readers read what one writer has written. -/
theorem untorn_of_matched (hm : m.Lawful Ready Opened) {s : S} (hs : Ready s)
    {es : List (Event π γ)} (h : Interleaving es) (hmatched : Matched es)
    (hfails : FailsOvertaken es) : Untorn m val s es where
  read := by
    intro g a b hlog
    obtain ⟨pre, mid, post, hes, hfirst, hsecond⟩ := exists_reads_of_log hlog
    have hsame := hmatched pre g mid post hes
    have hpre : Interleaving pre := h.of_prefix ⟨_, hes.symm⟩
    have hmid : Interleaving (pre ++ .readFirst g :: mid) :=
      h.of_prefix ⟨.readSecond g :: post, by simp [hes]⟩
    rw [(cells_run val hm hs hpre).1] at hfirst
    rw [(cells_run val hm hs hmid).2, ← hsame] at hsecond
    cases hlast : lastFirst pre with
    | none =>
        rw [hlast] at hfirst hsecond
        exact Or.inl ⟨hfirst.symm, hsecond.symm⟩
    | some i =>
        rw [hlast] at hfirst hsecond hsame
        refine Or.inr ⟨i, ?_, ?_, Prod.ext (Option.some.inj hfirst) hsecond⟩
        · rw [hes]
          exact List.mem_append_left _ (mem_of_lastFirst hlast)
        · have hmem := mem_of_lastSecond hsame.symm
          have hes' : es = (pre ++ .readFirst g :: mid) ++ .readSecond g :: post := by simp [hes]
          rw [hes']
          exact List.mem_append_left _ hmem
  failed pre i mid post hes hquiet := absurd hquiet (hfails pre i mid post hes)

/-- When every writer writes a value of its own in both parts, a reader that is
not matched reads a torn one, and a writer that fails leaves one behind. -/
theorem matched_of_untorn (hm : m.Lawful Ready Opened) {s : S} (hs : Ready s)
    {es : List (Event π γ)} (h : Interleaving es) {f : π → α} {g : π → β} {a : α}
    (hval : ∀ i, val i = (f i, g i)) (hf : Function.Injective f) (hg : Function.Injective g)
    (hstored : m.readFirst s = some a) (ha : ∀ i, f i ≠ a)
    (hb : ∀ i, g i ≠ m.readSecond s) (huntorn : Untorn m val s es) :
    Matched es ∧ FailsOvertaken es := by
  have hfirst : ∀ es', es' <+: es →
      m.readFirst (run m val s es').state = some ((lastFirst es').elim a f) := by
    intro es' hpre
    rw [(cells_run val hm hs (h.of_prefix hpre)).1, hstored]
    cases lastFirst es' with
    | none => rfl
    | some i => exact congrArg (fun v => some v.1) (hval i)
  have hsecond : ∀ es', es' <+: es → m.readSecond (run m val s es').state =
      (lastSecond es').elim (m.readSecond s) g := by
    intro es' hpre
    rw [(cells_run val hm hs (h.of_prefix hpre)).2]
    cases lastSecond es' with
    | none => rfl
    | some i => exact congrArg Prod.snd (hval i)
  constructor
  · intro pre r mid post hes
    subst hes
    have hpre := hfirst pre (List.prefix_append _ _)
    have hread := huntorn.read _ _ _ (mem_log_of_reads h.nodup hpre)
    rw [hsecond (pre ++ .readFirst r :: mid) ⟨.readSecond r :: post, by simp⟩] at hread
    -- the parts of different writers differ, so the two reads name one writer
    rcases hread with ⟨hfst, hsnd⟩ | ⟨i, -, -, hi⟩
    · rw [hstored, Option.some.injEq] at hfst
      have hx : lastFirst pre = none := elim_injective hf ha hfst
      have hy : lastSecond (pre ++ .readFirst r :: mid) = none := elim_injective hg hb hsnd
      rw [hx, hy]
    · rw [hval, Prod.mk.injEq] at hi
      have hx : some i = lastFirst pre := elim_injective hf ha hi.1
      have hy : some i = lastSecond (pre ++ .readFirst r :: mid) := elim_injective hg hb hi.2
      rw [← hx, ← hy]
  · intro pre i mid post hes hquiet
    subst hes
    have hsame := (huntorn.failed pre i mid post rfl hquiet).1
    have hlast : lastFirst (pre ++ .writeFirst i :: (mid ++ [.failSecond i])) = some i := by
      rw [show pre ++ .writeFirst i :: (mid ++ [.failSecond i]) =
        ((pre ++ [.writeFirst i]) ++ mid) ++ [.failSecond i] by simp, lastFirst_append]
      simp only
      rw [lastFirst_append_quiet hquiet, lastFirst_append]
    rw [hfirst _ ⟨post, by simp⟩, hfirst pre (List.prefix_append _ _), hlast,
      Option.some.injEq] at hsame
    have hx : some i = lastFirst pre := elim_injective hf ha hsame
    exact (List.nodup_append.1 h.nodup).2.2 _ (mem_of_lastFirst hx.symm) _ List.mem_cons_self rfl

end Run

end SplitRegister

end Foundation
