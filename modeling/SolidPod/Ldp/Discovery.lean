import SolidPod.Ldp.Links
import SolidPod.Wac.Walk

/-!
# ACL discovery against ACL resolution

Three places name the ACL document of a path: the `Link` headers of a resource,
the headers of a `404`, and the first key of the resolver's walk. The last two
drop the slashes that end the path and the first one does not, so they name the
same key exactly for the paths that are not containers.
-/

namespace SolidPod

namespace Ldp

open Foundation Str Wac

/-- The `rel="acl"` targets among the links of a resource. -/
def AclTarget (path target : Str) : Prop := link target "acl" ∈ linkHeaders path

/-- The `rel="acl"` targets among the headers of a `404`. -/
def NotFoundAclTarget (path : Str) (connegEnabled : Bool) (target : Str) : Prop :=
  (("Link" : Str), link target "acl") ∈ notFoundHeaders path connegEnabled

/-- Both kinds of header advertise one key, it is the key that the walk looks up
first, and a document that can be read there is the effective one. -/
def DiscoveryAgrees (path : Str) : Prop :=
  ∃ key, (∀ target, AclTarget path target ↔ target = key) ∧
    (∀ connegEnabled target, NotFoundAclTarget path connegEnabled target ↔ target = key) ∧
    (aclKeys path).head? = some key ∧
    ∀ (r : AclReader) (get : Lookup) body metadata doc, get key = .ok (body, metadata) →
      ¬ ExceedsBounds r body → Reads r body metadata.contentType doc →
        findEffectiveAcl r get path = .ok (some doc)

theorem link_eq_iff {target target' rel : Str} :
    link target rel = link target' rel ↔ target = target' := by
  simp [link]

/-- Links whose relations end in different letters differ. -/
theorem link_ne_of_getLast? {target target' rel rel' : Str} (h : rel.getLast? ≠ rel'.getLast?)
    (hrel : rel ≠ []) (hrel' : rel' ≠ []) : link target rel ≠ link target' rel' := by
  intro heq
  have hfront := List.append_cancel_right heq
  have hlast := congrArg List.getLast? hfront
  rw [List.getLast?_append_of_ne_nil _ hrel, List.getLast?_append_of_ne_nil _ hrel'] at hlast
  exact h hlast

theorem aclTarget_iff {path target : Str} (hacl : isAclPath path = false) :
    AclTarget path target ↔ target = path ++ ".acl" := by
  have htype (t : Str) : link target "acl" ≠ link t "type" :=
    link_ne_of_getLast? (by decide) (by decide) (by decide)
  have hmeta (t : Str) : link target "acl" ≠ link t "describedby" :=
    link_ne_of_getLast? (by decide) (by decide) (by decide)
  have hstorage (t : Str) : link target "acl" ≠ link t pimStorageRel :=
    link_ne_of_getLast? (by decide) (by decide) (by decide)
  rw [AclTarget, linkHeaders]
  simp only [List.mem_append, hacl, Bool.not_false, Bool.and_true, if_true, List.mem_singleton,
    link_eq_iff]
  constructor
  · rintro (((h | h) | h) | h)
    · split at h
      · simp only [List.mem_cons, List.not_mem_nil, or_false] at h
        rcases h with h | h | h <;> exact absurd h (htype _)
      · exact absurd (List.mem_singleton.mp h) (htype _)
    · exact h
    · split at h
      · exact absurd (List.mem_singleton.mp h) (hmeta _)
      · exact absurd h List.not_mem_nil
    · split at h
      · exact absurd (List.mem_singleton.mp h) (hstorage _)
      · exact absurd h List.not_mem_nil
  · intro h
    exact Or.inl (Or.inl (Or.inr h))

theorem notFoundAclTarget_iff {path target : Str} {connegEnabled : Bool} :
    NotFoundAclTarget path connegEnabled target ↔
      target = trimEndMatches '/' path ++ ".acl" := by
  have hkey {k v w : Str} (h : k ≠ "Link") : (("Link" : Str), v) ≠ (k, w) := by
    intro heq
    exact h (Prod.mk.inj heq).1.symm
  rw [NotFoundAclTarget, notFoundHeaders]
  simp only [List.mem_append, List.mem_cons, List.not_mem_nil, or_false]
  constructor
  · rintro ((h | h) | h)
    · rcases h with h | h | h | h | h
      · exact absurd h (hkey (by decide))
      · exact absurd h (hkey (by decide))
      · exact absurd h (hkey (by decide))
      · exact link_eq_iff.mp (Prod.mk.inj h).2
      · exact absurd h (hkey (by decide))
    · split at h
      · exact absurd (List.mem_singleton.mp h) (hkey (by decide))
      · exact absurd h List.not_mem_nil
    · split at h
      · exact absurd (List.mem_singleton.mp h) (hkey (by decide))
      · exact absurd h List.not_mem_nil
  · rintro rfl
    exact Or.inl (Or.inl (Or.inr (Or.inr (Or.inr (Or.inl rfl)))))

theorem trimEndMatches_eq_self_iff {c : Char} {s : Str} :
    trimEndMatches c s = s ↔ endsWith [c] s = false := by
  rw [trimEndMatches, List.rdropWhile_eq_self_iff, endsWith, ← Bool.not_eq_true,
    List.isSuffixOf_iff_suffix]
  constructor
  · rintro h ⟨t, rfl⟩
    exact h (by simp) (by simp)
  · intro h hne hlast
    refine h ⟨s.dropLast, ?_⟩
    rw [← eq_of_beq hlast]
    exact List.dropLast_append_getLast hne

/-- A document that can be read at the first key of the walk is the effective
one. -/
theorem findEffectiveAcl_of_reads_first {r : AclReader} {get : Lookup} {path : Str}
    {body : Bytes} {metadata : ResourceMeta} {doc : AclDocument}
    (hget : get (aclKey path) = .ok (body, metadata)) (hbounds : ¬ ExceedsBounds r body)
    (hreads : Reads r body metadata.contentType doc) :
    findEffectiveAcl r get path = .ok (some doc) := by
  have hgov : Governs r get path (aclKey path) := by
    refine ⟨[], (aclKeys path).tail, ?_, ⟨body, metadata, hget, Or.inr ⟨doc, hreads⟩⟩, by simp⟩
    rw [List.nil_append]
    exact (List.cons_head?_tail (head?_aclKeys path)).symm
  have hfind := findEffectiveAcl_of_governs hgov
  rw [hget, visitAcl_of_reads hbounds hreads] at hfind
  exact hfind

/-- Discovery agrees with resolution exactly for the paths that do not end in a
slash. -/
theorem discoveryAgrees_iff {path : Str} (hacl : isAclPath path = false) :
    DiscoveryAgrees path ↔ endsWith ['/'] path = false := by
  constructor
  · rintro ⟨key, hlink, hnotFound, -, -⟩
    have hkey := (aclTarget_iff hacl).mp ((hlink key).mpr rfl)
    have hkey' := notFoundAclTarget_iff.mp ((hnotFound true key).mpr rfl)
    rw [← trimEndMatches_eq_self_iff]
    exact List.append_cancel_right (hkey'.symm.trans hkey)
  · intro hslash
    have htrim : trimEndMatches '/' path = path := trimEndMatches_eq_self_iff.mpr hslash
    have hkey : aclKey path = path ++ ".acl" := by
      have hroot : (path == ("/" : Str)) = false := by
        rw [beq_eq_false_iff_ne]
        rintro rfl
        exact absurd hslash (by decide)
      rw [aclKey, hroot, if_neg (by simp), htrim]
    refine ⟨path ++ ".acl", ?_, ?_, ?_, ?_⟩
    · intro target
      exact aclTarget_iff hacl
    · intro connegEnabled target
      rw [notFoundAclTarget_iff, htrim]
    · rw [head?_aclKeys, hkey]
    · intro r get body metadata doc hget hbounds hreads
      rw [← hkey] at hget
      exact findEffectiveAcl_of_reads_first hget hbounds hreads

theorem discoveryAgrees_profileCard : DiscoveryAgrees "/profile/card" :=
  (discoveryAgrees_iff (by decide)).mpr (by decide)

/-- A container's own headers advertise a key that no walk looks up. -/
theorem not_discoveryAgrees_container : ¬ DiscoveryAgrees "/c/" := by
  rintro ⟨key, hlink, -, hfirst, -⟩
  have hkey := (aclTarget_iff (by decide)).mp ((hlink key).mpr rfl)
  rw [head?_aclKeys] at hfirst
  have heq := (Option.some.inj hfirst).trans hkey
  exact absurd heq (by decide)

end Ldp

end SolidPod
