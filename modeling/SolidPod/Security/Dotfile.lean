import SolidPod.Foundation.UnixPath

/-!
# Dotfiles

Two tests keep the names that begin with a dot out of a path. `isAllowed` walks
the components of a path, which leaves out `.` and the empty names; `isPathAllowed`
walks the texts between its slashes. On a path without `.` both tests decide about
each segment by itself.
-/

namespace SolidPod

open Foundation Str

namespace Security

def defaultAllowed : List Str := [".acl", ".meta", ".account"]

structure DotfileAllowlist where
  allowed : List Str

namespace DotfileAllowlist

def withDefaults : DotfileAllowlist := ⟨defaultAllowed⟩

def normaliseEntry (entry : Str) : Str :=
  let trimmed := trimStartMatches '/' (trim entry)
  if trimmed.isEmpty then []
  else if startsWith ['.'] trimmed then trimmed
  else '.' :: trimmed

def new (entries : List Str) : DotfileAllowlist :=
  ⟨(entries.map normaliseEntry).filter fun e => !e.isEmpty && e != ['.']⟩

def parseCsv (raw : Str) : List Str :=
  ((((raw.splitOn ',').map trim).filter fun s => !s.isEmpty).map normaliseEntry).filter
    fun s => !s.isEmpty && s != ['.']

/-- `raw` is the value of `DOTFILE_ALLOWLIST`, if it is set. -/
def fromEnv (raw : Option Str) : DotfileAllowlist :=
  match raw with
  | none => withDefaults
  | some raw => if (parseCsv raw).isEmpty then withDefaults else ⟨parseCsv raw⟩

def componentAllowed (allow : DotfileAllowlist) : Component → Bool
  | .normal s => !(startsWith ['.'] s && !allow.allowed.contains s)
  | .curDir | .parentDir => false
  | .rootDir => true

def isAllowed (allow : DotfileAllowlist) (path : Str) : Bool :=
  (UnixPath.components path).all allow.componentAllowed

end DotfileAllowlist

inductive DotfilePathError where
  | notAllowed (segment path : Str)
  | parentTraversal (path : Str)
  deriving DecidableEq

def staticAllowedDotfiles : List Str :=
  [".acl", ".meta", ".well-known", ".quota.json", ".acl.meta", ".account"]

def checkSegments (path : Str) : List Str → Except DotfilePathError Unit
  | [] => .ok ()
  | segment :: rest =>
    if segment.isEmpty || segment == ['.'] then checkSegments path rest
    else if segment == ['.', '.'] then .error (.parentTraversal path)
    else if !startsWith ['.'] segment then checkSegments path rest
    else if staticAllowedDotfiles.contains segment then checkSegments path rest
    else .error (.notAllowed segment path)

def isPathAllowed (path : Str) : Except DotfilePathError Unit :=
  checkSegments path (path.splitOn '/')

/-! ## One segment at a time -/

/-- The rule for a segment: no navigation, and no dotfile that is not listed. -/
structure Admissible (allowed : List Str) (segment : Str) : Prop where
  notCurrent : segment ≠ ['.']
  notParent : segment ≠ ['.', '.']
  listed : ['.'] <+: segment → segment ∈ allowed

variable {allow : DotfileAllowlist} {path segment : Str} {segments : List Str}

theorem admissible_nil (allowed : List Str) : Admissible allowed [] where
  notCurrent := by simp
  notParent := by simp
  listed h := by simp at h

/-- The component of a segment is let through if the segment is. -/
theorem all_nameComponent_iff (h : segment ≠ ['.']) :
    (∀ c, UnixPath.nameComponent segment = some c → allow.componentAllowed c = true) ↔
      Admissible allow.allowed segment := by
  by_cases hempty : segment = []
  · subst hempty
    exact iff_of_true (fun c hc => nomatch hc) (admissible_nil _)
  by_cases hparent : segment = ['.', '.']
  · subst hparent
    exact iff_of_false (fun hall => nomatch hall .parentDir rfl) fun hadm => hadm.notParent rfl
  · have hname : UnixPath.nameComponent segment = some (.normal segment) := by
      rw [UnixPath.nameComponent, if_neg hempty, if_neg h, if_neg hparent]
    have hlisted : allow.componentAllowed (.normal segment) = true ↔
        (['.'] <+: segment → segment ∈ allow.allowed) := by
      rw [DotfileAllowlist.componentAllowed, ← List.isPrefixOf_iff_prefix, startsWith]
      cases List.isPrefixOf ['.'] segment <;> simp
    constructor
    · intro hall
      exact ⟨h, hparent, hlisted.mp (hall _ hname)⟩
    · intro hadm c hc
      obtain rfl : Component.normal segment = c := Option.some.inj (hname.symm.trans hc)
      exact hlisted.mpr hadm.listed

theorem all_names_iff :
    (∀ c ∈ UnixPath.names path, allow.componentAllowed c = true) ↔
      ∀ segment ∈ path.splitOn '/', segment ≠ ['.'] → Admissible allow.allowed segment := by
  simp only [UnixPath.names, List.mem_filterMap, forall_exists_index, and_imp]
  constructor
  · intro h segment hmem hdot
    exact (all_nameComponent_iff hdot).mp fun c hc => h c segment hmem hc
  · intro h c segment hmem hc
    by_cases hdot : segment = ['.']
    · subst hdot
      cases hc
    · exact (all_nameComponent_iff hdot).mpr (h segment hmem hdot) c hc

theorem admissible_of_isAllowed (h : allow.isAllowed path = true) :
    ∀ segment ∈ path.splitOn '/', segment ≠ ['.'] → Admissible allow.allowed segment := by
  rw [DotfileAllowlist.isAllowed, UnixPath.components, List.all_append, Bool.and_eq_true] at h
  exact all_names_iff.mp (List.all_eq_true.mp h.2)

/-- On a path without `.` the components are judged as the segments are. -/
theorem isAllowed_iff (hdot : ∀ segment ∈ path.splitOn '/', segment ≠ ['.']) :
    allow.isAllowed path = true ↔
      ∀ segment ∈ path.splitOn '/', Admissible allow.allowed segment := by
  constructor
  · intro h segment hmem
    exact admissible_of_isAllowed h segment hmem (hdot segment hmem)
  · intro h
    have hanchor : (UnixPath.anchor path).all allow.componentAllowed = true := by
      rw [UnixPath.anchor]
      split_ifs with habsolute hcurrent
      · rfl
      · exact absurd rfl (hdot _ (List.mem_of_mem_head? hcurrent))
      · rfl
    rw [DotfileAllowlist.isAllowed, UnixPath.components, List.all_append, hanchor, Bool.true_and]
    exact List.all_eq_true.mpr (all_names_iff.mpr fun segment hmem _ => h segment hmem)

theorem checkSegments_eq_ok_iff :
    checkSegments path segments = .ok () ↔
      ∀ segment ∈ segments, segment ≠ ['.'] → Admissible staticAllowedDotfiles segment := by
  induction segments with
  | nil => exact iff_of_true rfl fun _ h => nomatch h
  | cons segment rest ih =>
      rw [List.forall_mem_cons, ← ih, checkSegments]
      split_ifs with hskip hparent hplain hlisted
      · rw [Bool.or_eq_true, List.isEmpty_iff, beq_iff_eq] at hskip
        refine (and_iff_right fun hdot => ?_).symm
        rw [hskip.resolve_right hdot]
        exact admissible_nil _
      · rw [beq_iff_eq] at hparent
        subst hparent
        refine iff_of_false (fun h => nomatch h) fun h => ?_
        exact (h.1 (by simp)).notParent rfl
      · rw [beq_iff_eq] at hparent
        refine (and_iff_right fun hdot => ⟨hdot, hparent, fun hprefix => ?_⟩).symm
        rw [startsWith, List.isPrefixOf_iff_prefix.mpr hprefix] at hplain
        cases hplain
      · rw [beq_iff_eq] at hparent
        rw [List.contains_iff_mem] at hlisted
        exact (and_iff_right fun hdot => ⟨hdot, hparent, fun _ => hlisted⟩).symm
      · rw [Bool.or_eq_true, not_or, beq_iff_eq] at hskip
        refine iff_of_false (fun h => nomatch h) fun h => ?_
        rw [Bool.not_eq_true', Bool.not_eq_false, startsWith,
          List.isPrefixOf_iff_prefix] at hplain
        exact hlisted (List.contains_iff_mem.mpr ((h.1 hskip.2).listed hplain))

/-- The free function lets through whatever the default allowlist does. -/
theorem isPathAllowed_of_isAllowed (h : DotfileAllowlist.withDefaults.isAllowed path = true) :
    isPathAllowed path = .ok () := by
  refine checkSegments_eq_ok_iff.mpr fun segment hmem hdot => ?_
  have hadm := admissible_of_isAllowed h segment hmem hdot
  refine ⟨hdot, hadm.notParent, fun hprefix => ?_⟩
  have hsub : ∀ s ∈ defaultAllowed, s ∈ staticAllowedDotfiles := by decide
  exact hsub segment (hadm.listed hprefix)

end Security

end SolidPod
