import Mathlib.Data.List.AList
import Mathlib.Data.List.Infix

/-!
# A tree of files and directories

A path is a list of names, and the root is the empty path. What the tree holds
at a path hangs below a directory: that is a field of the structure, so a tree
that breaks it cannot be built. Each operation does what the system call of its
name does, and fails as it does. Names and contents are arbitrary.
-/

namespace Foundation

inductive FileNode (β : Type*) where
  | file (content : β)
  | dir
  deriving DecidableEq

instance {β : Type*} : (o : Option (FileNode β)) → Decidable (o = some .dir)
  | some .dir => isTrue rfl
  | some (.file _) => isFalse (by simp)
  | none => isFalse (by simp)

/-- The kinds of failure that a path can cause. -/
inductive FileError where
  | notFound
  | notADirectory
  | isADirectory
  | alreadyExists
  deriving DecidableEq

structure FileTree (ν β : Type*) [DecidableEq ν] where
  nodes : AList fun _ : List ν => FileNode β
  closed : ∀ p n, (nodes.lookup (p ++ [n])).isSome →
    p = [] ∨ nodes.lookup p = some .dir

namespace FileTree

variable {ν β : Type*} [DecidableEq ν]

/-- What is at a path; the root is always a directory. -/
def node (t : FileTree ν β) (p : List ν) : Option (FileNode β) :=
  if p = [] then some .dir else t.nodes.lookup p

def empty : FileTree ν β := ⟨∅, by simp⟩

@[simp] theorem node_nil (t : FileTree ν β) : t.node [] = some .dir := rfl

theorem node_of_ne_nil (t : FileTree ν β) {p : List ν} (hp : p ≠ []) :
    t.node p = t.nodes.lookup p := if_neg hp

theorem node_append_singleton (t : FileTree ν β) (p : List ν) (n : ν) :
    t.node (p ++ [n]) = t.nodes.lookup (p ++ [n]) :=
  t.node_of_ne_nil (by simp)

theorem node_empty {p : List ν} (hp : p ≠ []) : (empty : FileTree ν β).node p = none :=
  if_neg hp

theorem node_parent (t : FileTree ν β) {p : List ν} {n : ν} (h : t.node (p ++ [n]) ≠ none) :
    t.node p = some .dir := by
  rw [node_append_singleton, Option.ne_none_iff_isSome] at h
  rcases t.closed p n h with rfl | hdir
  · rfl
  · by_cases hp : p = []
    · rw [hp, node_nil]
    · rw [t.node_of_ne_nil hp, hdir]

/-- Everything above an existing node is a directory. -/
theorem node_of_prefix (t : FileTree ν β) {p q : List ν} (hpq : p <+: q) (hne : p ≠ q)
    (h : t.node q ≠ none) : t.node p = some .dir := by
  obtain ⟨r, rfl⟩ := hpq
  induction r using List.reverseRecOn with
  | nil => exact absurd (List.append_nil p).symm hne
  | append_singleton r n ih =>
      rw [← List.append_assoc] at h
      have hdir : t.node (p ++ r) = some .dir := t.node_parent h
      by_cases hr : r = []
      · rw [hr, List.append_nil] at hdir
        exact hdir
      · refine ih ?_ (by rw [hdir]; exact Option.some_ne_none _)
        intro heq
        exact hr (List.append_right_eq_self.1 heq.symm)

/-- Some node on the way to `p`, or at it, is a file. -/
def Blocked (t : FileTree ν β) (p : List ν) : Prop :=
  ∃ q ∈ p.inits, ∃ b, t.node q = some (.file b)

def isFile (t : FileTree ν β) (p : List ν) : Bool :=
  match t.node p with
  | some (.file _) => true
  | _ => false

theorem isFile_iff {t : FileTree ν β} {p : List ν} :
    t.isFile p = true ↔ ∃ b, t.node p = some (.file b) := by
  rw [isFile]
  rcases t.node p with _ | ⟨b⟩ | _
  · simp
  · simp
  · simp

/-- The error for a path at which there is nothing. -/
def missing (t : FileTree ν β) (p : List ν) : FileError :=
  if p.inits.any t.isFile then .notADirectory else .notFound

theorem missing_eq_notFound {t : FileTree ν β} {p : List ν} (h : ¬t.Blocked p) :
    t.missing p = .notFound := by
  refine if_neg ?_
  rw [List.any_eq_true]
  rintro ⟨q, hq, hfile⟩
  exact h ⟨q, hq, isFile_iff.1 hfile⟩

def stat (t : FileTree ν β) (p : List ν) : Except FileError (FileNode β) :=
  match t.node p with
  | some n => .ok n
  | none => .error (t.missing p)

def readFile (t : FileTree ν β) (p : List ν) : Except FileError β :=
  match t.node p with
  | some (.file b) => .ok b
  | some .dir => .error .isADirectory
  | none => .error (t.missing p)

/-- The nodes right below `p`, by name. -/
def children (t : FileTree ν β) (p : List ν) : List (ν × FileNode β) :=
  t.nodes.entries.filterMap fun e =>
    if e.1.dropLast = p then e.1.getLast?.map fun n => (n, e.2) else none

def readDir (t : FileTree ν β) (p : List ν) : Except FileError (List (ν × FileNode β)) :=
  match t.node p with
  | some .dir => .ok (t.children p)
  | some (.file _) => .error .notADirectory
  | none => .error (t.missing p)

theorem mem_children {t : FileTree ν β} {p : List ν} {n : ν} {v : FileNode β} :
    (n, v) ∈ t.children p ↔ t.node (p ++ [n]) = some v := by
  rw [node_append_singleton]
  change _ ↔ v ∈ t.nodes.lookup (p ++ [n])
  rw [AList.mem_lookup_iff, children, List.mem_filterMap]
  constructor
  · rintro ⟨⟨k, w⟩, hmem, hk⟩
    simp only at hk
    split at hk
    · rename_i hparent
      rw [Option.map_eq_some_iff] at hk
      obtain ⟨m, hlast, hpair⟩ := hk
      obtain ⟨rfl, rfl⟩ := Prod.mk.inj hpair
      rwa [← hparent, List.dropLast_append_getLast? m hlast]
    · exact absurd hk (by simp)
  · intro hmem
    exact ⟨⟨p ++ [n], v⟩, hmem, by simp⟩

theorem nodup_children (t : FileTree ν β) (p : List ν) : (t.children p).Nodup := by
  refine List.Nodup.filterMap ?_ (List.NodupKeys.nodup t.nodes.nodupKeys)
  rintro ⟨k, v⟩ ⟨k', v'⟩ e he he'
  simp only [Option.mem_def, Option.ite_none_right_eq_some, Option.map_eq_some_iff] at he he'
  obtain ⟨hk, n, hn, rfl⟩ := he
  obtain ⟨hk', n', hn', hpair⟩ := he'
  obtain ⟨rfl, rfl⟩ := Prod.mk.inj hpair
  have hpath : k = k' := by
    rw [← List.dropLast_append_getLast? _ hn, ← List.dropLast_append_getLast? _ hn', hk, hk']
  rw [hpath]

/-- Put a node below a directory, in a place where no directory is. -/
def insert (t : FileTree ν β) (p : List ν) (n : ν) (v : FileNode β)
    (hparent : t.node p = some .dir) (hplace : t.node (p ++ [n]) ≠ some .dir) :
    FileTree ν β where
  nodes := t.nodes.insert (p ++ [n]) v
  closed := by
    intro q m hq
    have hdir : t.node q = some .dir := by
      by_cases heq : q ++ [m] = p ++ [n]
      · rw [(List.append_inj' heq rfl).1, hparent]
      · rw [AList.lookup_insert_ne heq] at hq
        exact t.node_parent (by rwa [node_append_singleton, Option.ne_none_iff_isSome])
    by_cases hnil : q = []
    · exact Or.inl hnil
    · refine Or.inr ?_
      have hne : q ≠ p ++ [n] := by
        rintro rfl
        exact hplace hdir
      rw [AList.lookup_insert_ne hne, ← t.node_of_ne_nil hnil, hdir]

theorem node_insert (t : FileTree ν β) (p : List ν) (n : ν) (v : FileNode β)
    (hparent : t.node p = some .dir) (hplace : t.node (p ++ [n]) ≠ some .dir) (q : List ν) :
    (t.insert p n v hparent hplace).node q = if q = p ++ [n] then some v else t.node q := by
  by_cases hnil : q = []
  · subst hnil
    rw [node_nil, if_neg (by simp), node_nil]
  · rw [node_of_ne_nil _ hnil, insert]
    by_cases hq : q = p ++ [n]
    · rw [if_pos hq, hq, AList.lookup_insert]
    · rw [if_neg hq, AList.lookup_insert_ne hq, t.node_of_ne_nil hnil]

/-- Make one directory, where its parent is one and the place is free. -/
def mkdir (t : FileTree ν β) (p : List ν) (n : ν) : FileTree ν β :=
  if h : t.node p = some .dir ∧ t.node (p ++ [n]) = none then
    t.insert p n .dir h.1 (by rw [h.2]; simp)
  else t

def mkdirs (t : FileTree ν β) (done : List ν) : List ν → FileTree ν β
  | [] => t
  | n :: rest => mkdirs (t.mkdir done n) (done ++ [n]) rest

/-- Make `p` and everything above it a directory. -/
def createDirAll (t : FileTree ν β) (p : List ν) : Except FileError (FileTree ν β) :=
  if t.isFile p then .error .alreadyExists
  else if p.inits.any t.isFile then .error .notADirectory
  else .ok (t.mkdirs [] p)

/-- Create or replace the file at `p`. -/
def writeFile (t : FileTree ν β) (p : List ν) (b : β) : Except FileError (FileTree ν β) :=
  match p.getLast? with
  | none => .error .isADirectory
  | some n =>
    if hplace : t.node (p.dropLast ++ [n]) = some .dir then .error .isADirectory
    else if hparent : t.node p.dropLast = some .dir then
      .ok (t.insert p.dropLast n (.file b) hparent hplace)
    else .error (t.missing p)

def removeFile (t : FileTree ν β) (p : List ν) : Except FileError (FileTree ν β) :=
  if hfile : t.isFile p = true then
    .ok
      { nodes := t.nodes.erase p
        closed := by
          intro q m hq
          have hq' : t.node (q ++ [m]) ≠ none := by
            rw [node_append_singleton, Option.ne_none_iff_isSome]
            by_cases heq : q ++ [m] = p
            · rw [heq, AList.lookup_erase] at hq
              exact absurd hq (by simp)
            · rwa [AList.lookup_erase_ne heq] at hq
          have hdir := t.node_parent hq'
          by_cases hnil : q = []
          · exact Or.inl hnil
          · refine Or.inr ?_
            have hne : q ≠ p := by
              rintro rfl
              obtain ⟨b, hb⟩ := isFile_iff.1 hfile
              rw [hb] at hdir
              exact absurd hdir (by simp)
            rw [AList.lookup_erase_ne hne, ← t.node_of_ne_nil hnil, hdir] }
  else if t.node p = some .dir then .error .isADirectory
  else .error (t.missing p)

theorem not_blocked_iff {t : FileTree ν β} {p : List ν} :
    ¬t.Blocked p ↔ ∀ q, q <+: p → t.isFile q = false := by
  simp only [Blocked, List.mem_inits, ← isFile_iff, not_exists, not_and, Bool.not_eq_true]

theorem node_mkdir (t : FileTree ν β) {p : List ν} {n : ν} (hparent : t.node p = some .dir)
    (hfile : t.isFile (p ++ [n]) = false) (q : List ν) :
    (t.mkdir p n).node q = if q = p ++ [n] then some .dir else t.node q := by
  rw [mkdir]
  by_cases h : t.node p = some .dir ∧ t.node (p ++ [n]) = none
  · rw [dif_pos h, node_insert]
  · rw [dif_neg h]
    by_cases hq : q = p ++ [n]
    · have hsome : t.node (p ++ [n]) ≠ none := fun hnone => h ⟨hparent, hnone⟩
      rw [if_pos hq, hq]
      rw [isFile] at hfile
      rcases hnode : t.node (p ++ [n]) with _ | ⟨b⟩ | _
      · exact absurd hnode hsome
      · rw [hnode] at hfile
        exact absurd hfile (by simp)
      · rfl
    · rw [if_neg hq]

theorem node_mkdirs (rest : List ν) : ∀ (t : FileTree ν β) (done : List ν),
    t.node done = some .dir → (∀ r, r <+: rest → t.isFile (done ++ r) = false) →
    ∀ q, (t.mkdirs done rest).node q =
      if done <+: q ∧ q <+: done ++ rest then some .dir else t.node q := by
  induction rest with
  | nil =>
      intro t done hdone _ q
      rw [mkdirs, List.append_nil]
      split_ifs with h
      · rw [h.2.eq_of_length (le_antisymm h.2.length_le h.1.length_le), hdone]
      · rfl
  | cons n rest ih =>
      intro t done hdone hfree q
      have hn : t.isFile (done ++ [n]) = false := hfree [n] (by simp)
      have hmk := t.node_mkdir hdone hn
      rw [mkdirs, ih (t.mkdir done n) (done ++ [n]), List.append_assoc, List.singleton_append, hmk]
      · by_cases hq : done ++ [n] <+: q ∧ q <+: done ++ n :: rest
        · rw [if_pos hq, if_pos ⟨(List.prefix_append done [n]).trans hq.1, hq.2⟩]
        · rw [if_neg hq]
          by_cases hbelow : done <+: q ∧ q <+: done ++ n :: rest
          · rw [if_pos hbelow, if_neg]
            · -- between `done` and the name below it there is only `done`
              obtain ⟨⟨r, rfl⟩, hpre⟩ := hbelow
              rw [List.prefix_append_right_inj] at hpre
              cases r with
              | nil => rw [List.append_nil, hdone]
              | cons m r =>
                  obtain ⟨rfl, -⟩ := List.cons_prefix_cons.1 hpre
                  refine absurd ⟨?_, ?_⟩ hq
                  · rw [List.prefix_append_right_inj]
                    simp
                  · rwa [List.prefix_append_right_inj]
            · rintro rfl
              exact hq ⟨List.prefix_rfl, hbelow.2⟩
          · rw [if_neg hbelow, if_neg]
            rintro rfl
            exact hbelow ⟨List.prefix_append done [n], by
              rw [List.prefix_append_right_inj]
              simp⟩
      · rw [hmk, if_pos rfl]
      · intro r hr
        rw [isFile, hmk, List.append_assoc, List.singleton_append]
        split_ifs with heq
        · rfl
        · exact hfree (n :: r) (List.cons_prefix_cons.2 ⟨rfl, hr⟩)

theorem createDirAll_of_not_blocked {t : FileTree ν β} {p : List ν} (h : ¬t.Blocked p) :
    ∃ t', t.createDirAll p = .ok t' ∧
      ∀ q, t'.node q = if q <+: p then some .dir else t.node q := by
  rw [not_blocked_iff] at h
  refine ⟨t.mkdirs [] p, ?_, ?_⟩
  · rw [createDirAll, if_neg (by simp [h p List.prefix_rfl]), if_neg]
    rw [List.any_eq_true]
    rintro ⟨q, hq, hfile⟩
    rw [h q (List.mem_inits q p |>.1 hq)] at hfile
    exact absurd hfile (by simp)
  · intro q
    rw [node_mkdirs p t [] rfl (fun r hr => h r hr)]
    simp

theorem writeFile_of_parent {t : FileTree ν β} {p : List ν} (hp : p ≠ []) (b : β)
    (hparent : t.node p.dropLast = some .dir) (hplace : t.node p ≠ some .dir) :
    ∃ t', t.writeFile p b = .ok t' ∧
      ∀ q, t'.node q = if q = p then some (.file b) else t.node q := by
  have hsplit : p.dropLast ++ [p.getLast hp] = p := List.dropLast_append_getLast hp
  have hplace' : t.node (p.dropLast ++ [p.getLast hp]) ≠ some .dir := by rwa [hsplit]
  refine ⟨t.insert p.dropLast (p.getLast hp) (.file b) hparent hplace', ?_, ?_⟩
  · rw [writeFile, List.getLast?_eq_some_getLast hp]
    simp only
    rw [dif_neg hplace', dif_pos hparent]
  · intro q
    rw [node_insert, hsplit]

theorem removeFile_of_file {t : FileTree ν β} {p : List ν} {b : β}
    (h : t.node p = some (.file b)) :
    ∃ t', t.removeFile p = .ok t' ∧ ∀ q, t'.node q = if q = p then none else t.node q := by
  have hfile : t.isFile p = true := isFile_iff.2 ⟨b, h⟩
  have hp : p ≠ [] := by
    rintro rfl
    rw [node_nil] at h
    exact absurd h (by simp)
  refine ⟨_, dif_pos hfile, ?_⟩
  intro q
  by_cases hnil : q = []
  · rw [hnil, node_nil, if_neg (Ne.symm hp), node_nil]
  · rw [node_of_ne_nil _ hnil]
    by_cases hq : q = p
    · rw [if_pos hq, hq, AList.lookup_erase]
    · rw [if_neg hq, AList.lookup_erase_ne hq, t.node_of_ne_nil hnil]

theorem removeFile_of_none {t : FileTree ν β} {p : List ν} (h : t.node p = none) :
    t.removeFile p = .error (t.missing p) := by
  rw [removeFile, dif_neg (by simp [isFile, h]), if_neg (by simp [h])]

theorem not_blocked_of_createDirAll {t t' : FileTree ν β} {p : List ν}
    (h : t.createDirAll p = .ok t') : ¬t.Blocked p := by
  rw [createDirAll] at h
  split_ifs at h with _ hany
  rintro ⟨q, hq, hfile⟩
  exact hany (List.any_eq_true.2 ⟨q, hq, isFile_iff.2 hfile⟩)

/-- Where directories were made there was a directory or nothing. -/
theorem node_of_createDirAll {t t' : FileTree ν β} {p : List ν} (h : t.createDirAll p = .ok t')
    (q : List ν) : t'.node q = if q <+: p then some .dir else t.node q := by
  obtain ⟨made, hmade, hnode⟩ := createDirAll_of_not_blocked (not_blocked_of_createDirAll h)
  rw [h] at hmade
  cases hmade
  exact hnode q

theorem node_of_writeFile {t t' : FileTree ν β} {p : List ν} {b : β}
    (h : t.writeFile p b = .ok t') (q : List ν) :
    t'.node q = if q = p then some (.file b) else t.node q := by
  rw [writeFile] at h
  split at h
  · cases h
  · rename_i n hlast
    split_ifs at h with hplace hparent
    cases h
    rw [node_insert, List.dropLast_append_getLast? n hlast]

/-! ## Trees with the same nodes -/

/-- What is anywhere in one tree is there in the other. -/
def Alike (t t' : FileTree ν β) : Prop := ∀ q, t.node q = t'.node q

namespace Alike

variable {t t' : FileTree ν β}

theorem missing (h : t.Alike t') (p : List ν) : t.missing p = t'.missing p := by
  have hfile : t.isFile = t'.isFile := by
    funext q
    rw [isFile, isFile, h q]
  rw [FileTree.missing, FileTree.missing, hfile]

theorem readFile (h : t.Alike t') (p : List ν) : t.readFile p = t'.readFile p := by
  rw [FileTree.readFile, FileTree.readFile, h p, h.missing p]

theorem children_perm (h : t.Alike t') (p : List ν) : (t.children p).Perm (t'.children p) := by
  rw [List.perm_ext_iff_of_nodup (t.nodup_children p) (t'.nodup_children p)]
  rintro ⟨n, v⟩
  rw [mem_children, mem_children, h]

end Alike

end FileTree

end Foundation
