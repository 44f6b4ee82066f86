import SolidPod.Ldp.Discovery
import SolidPod.Provision.AccessRules
import SolidPod.Storage.Seeding

/-!
# The containers of a provisioned pod

Provisioning a container puts its sidecar, under the name of the container without the slashes
at its end. The links of the container advertise another key, inside of it, so no container but
the root is described where its links say. To provision again changes nothing: every write is
held when the first run ends.
-/

namespace SolidPod

namespace Provision

open Foundation Str Ldp

/-! ## Programs that write planned contents -/

/-- A key as the backends take it. -/
def rooted (key : Str) : Str := if IsAbsolute key then key else '/' :: key

variable {σ : Type} [SeedStorage σ] {α β : Type}

theorem put_rooted (s : σ) {key : Str} (h : key ≠ []) (body : Bytes) (contentType : Str) :
    Storage.put s key body contentType = Storage.put s (rooted key) body contentType := by
  by_cases habs : IsAbsolute key
  · rw [rooted, if_pos habs]
  · rw [rooted, if_neg habs, SeedStorage.put_relative s body contentType h habs]

/-- The program writes the content `f` at keys that satisfy `K` and nothing else, and when it
succeeds `keys` are written. -/
structure Seeds (f : Str → Bytes × Str) (K : Str → Prop) (keys : List Str)
    (p : Program σ PodError α) : Prop where
  only : ∀ I : σ → Prop, (∀ (s : σ) (q : ResourcePath), K q.text → I s →
    I (Storage.put s q.text (f q.text).1 (f q.text).2).2) → p.Keeps I fun _ => True
  made : ∀ s a, (p.exec s).1 = .ok a → ∀ q : ResourcePath, K q.text → q.text ∈ keys →
    SeedStorage.Holds (p.exec s).2 q (f q.text).1 (f q.text).2

namespace Seeds

variable {f : Str → Bytes × Str} {K : Str → Prop} {keys keys' : List Str}
  {p : Program σ PodError α} {s : σ} {q : ResourcePath}

theorem ofResult (r : Except PodError α) :
    Seeds (σ := σ) f K [] (Program.ofResult r) where
  only _ _ := .ofResult fun _ _ => trivial
  made _ _ _ _ _ h := absurd h List.not_mem_nil

theorem pure (a : α) : Seeds (σ := σ) f K [] (Pure.pure a) := ofResult (.ok a)

theorem rejectIf (c : Prop) [Decidable c] (e : PodError) :
    Seeds (σ := σ) f K [] (Program.rejectIf c e) := by
  by_cases hc : c
  · rw [Program.rejectIf, if_pos hc]
    exact ofResult _
  · rw [Program.rejectIf, if_neg hc]
    exact ofResult _

/-- What is held stays so under further writes of the same contents. -/
theorem holds_put (hK : ∀ key, K key → endsWith metaSuffix key = false) (hq : K q.text)
    {q' : ResourcePath} (hq' : K q'.text)
    (h : SeedStorage.Holds s q (f q.text).1 (f q.text).2) :
    SeedStorage.Holds (Storage.put s q'.text (f q'.text).1 (f q'.text).2).2 q
      (f q.text).1 (f q.text).2 := by
  have hsidecar : ∀ x y : ResourcePath, K x.text → x ≠ y.sidecar := by
    rintro _ y hx rfl
    have hends : endsWith metaSuffix y.sidecar.text = true := by
      rw [ResourcePath.text_sidecar, endsWith, List.isSuffixOf_iff_suffix]
      exact List.suffix_append _ _
    rw [hK _ hx] at hends
    cases hends
  by_cases heq : q = q'
  · subst heq
    exact SeedStorage.holds_of_same (SeedStorage.same_put (SeedStorage.same_refl s) h) h
  · exact SeedStorage.holds_put _ _ heq (hsidecar q q' hq).symm (hsidecar q' q hq') h

theorem bind (hK : ∀ key, K key → endsWith metaSuffix key = false) {Q : α → Prop}
    {g : α → Program σ PodError β} (hp : Seeds f K keys p)
    (hQ : ∀ s a, (p.exec s).1 = .ok a → Q a) (hg : ∀ a, Q a → Seeds f K keys' (g a)) :
    Seeds f K (keys ++ keys') (p >>= g) where
  only I hI := by
    refine Program.Keeps.bind (Q := Q) ?_ fun a ha => (hg a ha).only I hI
    exact fun s hs => ⟨((hp.only I hI) s hs).1, hQ s⟩
  made s b hb q hq h := by
    obtain ⟨a, ha, hrest, hstate⟩ := Program.exists_of_exec_bind hb
    have hseeds := hg a (hQ s a ha)
    rw [hstate]
    rcases List.mem_append.mp h with h | h
    · have hheld := hp.made s a ha q hq h
      exact (hseeds.only (SeedStorage.Holds · q (f q.text).1 (f q.text).2)
        fun s' q' hq' hs' => holds_put hK hq hq' hs').after hheld
    · exact hseeds.made _ b hrest q hq h

theorem mono (h : Seeds f K keys p) (hkeys : ∀ key ∈ keys', key ∈ keys) : Seeds f K keys' p where
  only := h.only
  made s a ha q hq hmem := h.made s a ha q hq (hkeys _ hmem)

theorem andThen (hK : ∀ key, K key → endsWith metaSuffix key = false)
    {g : α → Program σ PodError β} (hp : Seeds f K keys p) (hg : ∀ a, Seeds f K keys' (g a)) :
    Seeds f K (keys ++ keys') (p >>= g) :=
  hp.bind (Q := fun _ => True) hK (fun _ _ _ => trivial) fun a _ => hg a

/-- A program that is one put, and succeeds only where the put does. -/
theorem ofPut {key : Str} (hkey : key ≠ []) (hq : ∃ q : ResourcePath, q.text = rooted key)
    (hK : K (rooted key))
    (hstate : ∀ s, (p.exec s).2 = (Storage.put s key (f (rooted key)).1 (f (rooted key)).2).2)
    (hok : ∀ s a, (p.exec s).1 = .ok a →
      ∃ m, (Storage.put s key (f (rooted key)).1 (f (rooted key)).2).1 = .ok m) :
    Seeds f K [rooted key] p := by
  obtain ⟨q, hq⟩ := hq
  have hput : ∀ s : σ, Storage.put s key (f (rooted key)).1 (f (rooted key)).2 =
      Storage.put s q.text (f q.text).1 (f q.text).2 := by
    intro s
    rw [put_rooted s hkey, hq]
  constructor
  · intro I hI s hs
    refine ⟨?_, fun _ _ => trivial⟩
    rw [hstate, hput]
    exact hI s q (by rwa [hq]) hs
  · intro s a ha q' _ hmem
    obtain ⟨m, hm⟩ := hok s a ha
    obtain rfl : q' = q :=
      ResourcePath.text_injective ((List.mem_singleton.mp hmem).trans hq.symm)
    rw [hput] at hm
    rw [hstate, hput]
    exact SeedStorage.holds_put_self hm

theorem put {key : Str} (hkey : key ≠ []) (hq : ∃ q : ResourcePath, q.text = rooted key)
    (hK : K (rooted key)) : Seeds (σ := σ) f K [rooted key]
      (Provision.put key (f (rooted key)).1 (f (rooted key)).2) := by
  refine ofPut hkey hq hK (fun _ => rfl) fun s u hu => ?_
  change ((Storage.put s key (f (rooted key)).1 (f (rooted key)).2).1.map _) = .ok u at hu
  cases h : (Storage.put s key (f (rooted key)).1 (f (rooted key)).2).1 with
  | error e =>
      rw [h] at hu
      cases hu
  | ok m => exact ⟨m, rfl⟩

/-- Nothing comes to be stored where no write puts a file. -/
theorem not_stored (h : Seeds f K keys p)
    (hfree : ∀ q' : ResourcePath, K q'.text → q ≠ q' ∧ q ≠ q'.sidecar) (hs : ¬ Stored s q.text) :
    ¬ Stored (p.exec s).2 q.text := by
  refine (h.only (fun s => ¬ Stored s q.text) fun s q' hq' hnot hstored => ?_).after hs
  rcases SeedStorage.stored_put hstored with hbefore | heq | heq
  · exact hnot hbefore
  · exact (hfree q' hq').1 heq
  · exact (hfree q' hq').2 heq

/-- After a run that succeeds the same run changes nothing. -/
theorem again (h : Seeds f K keys p) (hall : ∀ key, K key → key ∈ keys) {a : α}
    (hok : (p.exec s).1 = .ok a) :
    SeedStorage.Same (p.exec s).2 (p.exec (p.exec s).2).2 := by
  refine (h.only (SeedStorage.Same (p.exec s).2) fun s' q' hq' hs' => ?_).after
    (SeedStorage.same_refl _)
  exact SeedStorage.same_put hs' (h.made s a hok q' hq' (hall _ hq'))

end Seeds

/-! ## The sidecar of a container -/

instance (s : Str) : Decidable (IsSegment s) :=
  decidable_of_iff (s ≠ [] ∧ s ≠ "." ∧ s ≠ ".." ∧ '/' ∉ s ∧ '\x00' ∉ s)
    ⟨fun h => ⟨h.1, h.2.1, h.2.2.1, h.2.2.2.1, h.2.2.2.2⟩,
      fun h => ⟨h.ne_nil, h.ne_dot, h.ne_dots, h.slash, h.nul⟩⟩

/-- A canonical path that ends in a slash. -/
def IsContainerPath (container : Str) : Prop :=
  ∃ segments : List Str, (∀ s ∈ segments, IsSegment s) ∧ container = pathText segments ++ ['/']

theorem isContainerPath_root : IsContainerPath "/" := ⟨[], by simp, rfl⟩

theorem isSegment_append_meta {n : Str} (hslash : '/' ∉ n) (hnul : '\x00' ∉ n) :
    IsSegment (n ++ ".meta") where
  ne_nil := List.append_ne_nil_of_right_ne_nil _ (by decide)
  ne_dot := by
    intro heq
    have hlength := congrArg List.length heq
    rw [List.length_append] at hlength
    exact absurd hlength (by simp)
  ne_dots := by
    intro heq
    have hlength := congrArg List.length heq
    rw [List.length_append] at hlength
    exact absurd hlength (by simp)
  slash := by
    rw [List.mem_append, not_or]
    exact ⟨hslash, by decide⟩
  nul := by
    rw [List.mem_append, not_or]
    exact ⟨hnul, by decide⟩

theorem metaKey_container {l : List Str} {n : Str} (hn : IsSegment n) :
    metaKey (pathText (l ++ [n]) ++ ['/']) = pathText (l ++ [n ++ ".meta"]) := by
  have htext : ∀ m : Str, pathText (l ++ [m]) = pathText l ++ '/' :: m := by
    intro m
    rw [pathText_append]
    simp [pathText]
  have htrim : trimEndMatches '/' (pathText (l ++ [n])) = pathText (l ++ [n]) := by
    rw [trimEndMatches_eq_self_iff, ← Bool.not_eq_true, endsWith, List.isSuffixOf_iff_suffix, htext]
    intro hsuffix
    have hlast := List.suffix_of_suffix_length_le hsuffix
      ((List.suffix_cons '/' n).trans (List.suffix_append _ _))
      (List.length_pos_of_ne_nil hn.ne_nil)
    exact hn.slash (hlast.subset (by simp))
  rw [metaKey, trimEndMatches, List.rdropWhile_concat_pos _ _ _ rfl]
  change trimEndMatches '/' _ ++ _ = _
  rw [htrim, htext, htext, List.append_assoc, List.cons_append]

/-- The sidecar of a container lies next to it; only that of the root has no name before its
ending. -/
theorem exists_metaPath {container : Str} (h : IsContainerPath container) :
    ∃ q : ResourcePath, q.text = rooted (metaKey container) ∧
      ∃ (l : List Str) (n : Str), q.segments = l ++ [n ++ ".meta"] ∧ (n = [] → l = []) := by
  obtain ⟨segments, hproper, rfl⟩ := h
  rcases List.eq_nil_or_concat' segments with rfl | ⟨l, n, rfl⟩
  · refine ⟨oneSegment ".meta" (isSegment_append_meta List.not_mem_nil List.not_mem_nil), ?_,
      [], [], rfl, fun _ => rfl⟩
    decide
  · have hn : IsSegment n := hproper n (by simp)
    have hsegments : ∀ s ∈ l ++ [n ++ ".meta"], IsSegment s := by
      intro s hs
      rcases List.mem_append.mp hs with hs | hs
      · exact hproper s (List.mem_append_left _ hs)
      · rw [List.mem_singleton.mp hs]
        exact isSegment_append_meta hn.slash hn.nul
    refine ⟨⟨l ++ [n ++ ".meta"], by simp, hsegments⟩, ?_, l, n, rfl,
      fun hnil => absurd hnil hn.ne_nil⟩
    rw [metaKey_container hn, rooted, if_pos]
    · rfl
    · exact ResourcePath.isAbsolute_text (p := ⟨l ++ [n ++ ".meta"], by simp, hsegments⟩)

theorem endsWith_meta (container : Str) : endsWith ".meta" (rooted (metaKey container)) = true := by
  have hmeta : (".meta" : Str) <:+ metaKey container := List.suffix_append _ _
  rw [endsWith, List.isSuffixOf_iff_suffix, rooted]
  split_ifs
  · exact hmeta
  · exact hmeta.trans (List.suffix_cons _ _)

/-- What ends in `.meta` is no sidecar file of the filesystem backend. -/
theorem endsWith_metaSuffix_eq_false {key : Str} (h : endsWith ".meta" key = true) :
    endsWith metaSuffix key = false := by
  rw [endsWith, List.isSuffixOf_iff_suffix] at h
  rw [← Bool.not_eq_true, endsWith, List.isSuffixOf_iff_suffix]
  intro hsuffix
  exact absurd (List.suffix_of_suffix_length_le h hsuffix (by decide)) (by decide)

/-! ## What a plan writes -/

section Plan

variable (w : JsonWriter) (plan : ProvisionPlan)

/-- The bytes of the root ACL, where the library writes it. -/
def rootAclBody : Bytes := (plan.rootAcl.bind fun acl => (w.toVec acl).toOption).getD []

/-- The content that a plan has for a key. -/
def content (key : Str) : Bytes × Str :=
  if endsWith ".meta" key then (utf8 "\x7b\x7d", "application/ld+json")
  else if key = "/profile/card" then
    (utf8 (generateWebidHtml w plan.pubkey plan.displayName plan.podBase), "text/html")
  else if key = "/.acl" then (rootAclBody w plan, "application/ld+json")
  else if key = publicTypeIndexPath then
    (utf8 (renderTypeIndexBody w "solid:ListedDocument"), "application/ld+json")
  else if key = privateTypeIndexPath then
    (utf8 (renderTypeIndexBody w "solid:UnlistedDocument"), "application/ld+json")
  else (utf8 plan.publicAclTtl, "text/turtle")

/-- The keys that every plan writes, those of the containers apart. -/
def fixedKeys : List Str :=
  ["/profile/card", "/.acl", publicTypeIndexPath, privateTypeIndexPath, publicTypeIndexAclPath]

/-- The key of the root ACL, for a plan that has one. -/
def ProvisionPlan.rootAclKeys : List Str := if plan.rootAcl.isSome then ["/.acl"] else []

def ProvisionPlan.sidecarKeys : List Str := plan.allContainers.map fun c => rooted (metaKey c)

/-- The keys that a plan writes. -/
def ProvisionPlan.keys : List Str :=
  plan.sidecarKeys ++ (["/profile/card"] : List Str) ++ plan.rootAclKeys ++
    [publicTypeIndexPath, privateTypeIndexPath, publicTypeIndexAclPath]

variable {w plan} {container key : Str}

theorem content_of_meta (h : endsWith ".meta" key = true) :
    content w plan key = (utf8 "\x7b\x7d", ("application/ld+json" : Str)) := if_pos h

theorem content_card : content w plan "/profile/card" =
    (utf8 (generateWebidHtml w plan.pubkey plan.displayName plan.podBase),
      ("text/html" : Str)) := by
  rw [content, if_neg (by decide), if_pos rfl]

theorem content_acl :
    content w plan "/.acl" = (rootAclBody w plan, ("application/ld+json" : Str)) := by
  rw [content, if_neg (by decide), if_neg (by decide), if_pos rfl]

theorem content_publicTypeIndex : content w plan publicTypeIndexPath =
    (utf8 (renderTypeIndexBody w "solid:ListedDocument"), ("application/ld+json" : Str)) := by
  rw [content, if_neg (by decide), if_neg (by decide), if_neg (by decide), if_pos rfl]

theorem content_privateTypeIndex : content w plan privateTypeIndexPath =
    (utf8 (renderTypeIndexBody w "solid:UnlistedDocument"), ("application/ld+json" : Str)) := by
  rw [content, if_neg (by decide), if_neg (by decide), if_neg (by decide), if_neg (by decide),
    if_pos rfl]

theorem content_publicTypeIndexAcl : content w plan publicTypeIndexAclPath =
    (utf8 plan.publicAclTtl, ("text/turtle" : Str)) := by
  rw [content, if_neg (by decide), if_neg (by decide), if_neg (by decide), if_neg (by decide),
    if_neg (by decide)]

theorem ProvisionPlan.mem_keys (h : key ∈ plan.keys) :
    (∃ c ∈ plan.allContainers, key = rooted (metaKey c)) ∨ key ∈ fixedKeys := by
  rw [ProvisionPlan.keys, List.mem_append, List.mem_append, List.mem_append] at h
  rcases h with ((h | h) | h) | h
  · obtain ⟨c, hc, rfl⟩ := List.mem_map.mp h
    exact Or.inl ⟨c, hc, rfl⟩
  · rw [List.mem_singleton.mp h]
    exact Or.inr (by decide)
  · rw [ProvisionPlan.rootAclKeys] at h
    split_ifs at h
    · rw [List.mem_singleton.mp h]
      exact Or.inr (by decide)
    · exact absurd h List.not_mem_nil
  · exact Or.inr (List.mem_cons_of_mem _ (List.mem_cons_of_mem _ h))

theorem endsWith_of_mem_fixedKeys : ∀ key ∈ fixedKeys,
    endsWith ".meta" key = false ∧ endsWith metaSuffix key = false := by
  decide

theorem ProvisionPlan.plain_keys (plan : ProvisionPlan) :
    ∀ key ∈ plan.keys, endsWith metaSuffix key = false := by
  intro key h
  rcases ProvisionPlan.mem_keys h with ⟨c, -, rfl⟩ | h
  · exact endsWith_metaSuffix_eq_false (endsWith_meta c)
  · exact (endsWith_of_mem_fixedKeys key h).2

/-- The container is one of the plan's, or one that every pod has. -/
theorem ProvisionPlan.isContainerPath (h : ∀ c ∈ plan.containers, IsContainerPath c) :
    ∀ c ∈ plan.allContainers, IsContainerPath c := by
  intro c hc
  have hmem := (List.destutter_sublist _ _).mem hc
  rw [List.mem_insertionSort, List.mem_append] at hmem
  rcases hmem with hmem | hmem
  · exact h c hmem
  · simp only [ProvisionPlan.defaultContainers, List.mem_cons, List.not_mem_nil, or_false] at hmem
    rcases hmem with rfl | rfl | rfl
    · exact isContainerPath_root
    · exact ⟨["profile"], by decide, by decide⟩
    · exact ⟨["settings"], by decide, by decide⟩

theorem exists_path_of_mem_fixedKeys : ∀ key ∈ fixedKeys, ∃ q : ResourcePath, q.text = key := by
  have hpath : ∀ segments : List Str, segments ≠ [] → (∀ s ∈ segments, IsSegment s) →
      ∃ q : ResourcePath, q.text = pathText segments :=
    fun segments hne hproper => ⟨⟨segments, hne, hproper⟩, rfl⟩
  intro key h
  simp only [fixedKeys, List.mem_cons, List.not_mem_nil, or_false] at h
  rcases h with rfl | rfl | rfl | rfl | rfl
  · exact hpath ["profile", "card"] (by decide) (by decide)
  · exact hpath [".acl"] (by decide) (by decide)
  · exact hpath ["settings", "publicTypeIndex.jsonld"] (by decide) (by decide)
  · exact hpath ["settings", "privateTypeIndex.jsonld"] (by decide) (by decide)
  · exact hpath ["settings", "publicTypeIndex.jsonld.acl"] (by decide) (by decide)

/-! ## What a run writes -/

theorem seeds_putContainer (h : IsContainerPath container)
    (hmem : container ∈ plan.allContainers) :
    Seeds (σ := σ) (content w plan) (· ∈ plan.keys) [rooted (metaKey container)]
      (putContainer container) := by
  obtain ⟨q, hq, -⟩ := exists_metaPath h
  have hcontent : content w plan (rooted (metaKey container)) = _ :=
    content_of_meta (endsWith_meta container)
  have hkey : rooted (metaKey container) ∈ plan.keys := by
    rw [ProvisionPlan.keys, List.append_assoc, List.append_assoc]
    exact List.mem_append_left _ (List.mem_map_of_mem hmem)
  refine .ofPut (List.append_ne_nil_of_right_ne_nil _ (by decide)) ⟨q, hq⟩ hkey ?_ ?_
  · intro s
    rw [snd_exec_putContainer, hcontent]
  · intro s created hcreated
    rw [hcontent]
    have hother := SeedStorage.put_ne_alreadyExists s (metaKey container) (utf8 "\x7b\x7d")
      "application/ld+json"
    rw [putContainer, Program.exec, Program.step] at hcreated
    rcases hput : Storage.put s (metaKey container) (utf8 "\x7b\x7d") "application/ld+json" with
      ⟨e | m, s'⟩
    · rw [hput] at hcreated hother
      cases e with
      | alreadyExists path => exact absurd rfl (hother path)
      | _ => cases hcreated
    · exact ⟨m, rfl⟩

theorem seeds_createContainers {containers : List Str}
    (h : ∀ c ∈ containers, IsContainerPath c ∧ c ∈ plan.allContainers) :
    Seeds (σ := σ) (content w plan) (· ∈ plan.keys)
      (containers.map fun c => rooted (metaKey c)) (createContainers containers) := by
  induction containers with
  | nil => exact .pure []
  | cons container rest ih =>
      rw [List.forall_mem_cons] at h
      have hput : Seeds (σ := σ) (content w plan) (· ∈ plan.keys) [rooted (metaKey container)]
          (putContainer container) := seeds_putContainer h.1.1 h.1.2
      refine .mono (.andThen plan.plain_keys (.rejectIf _ _) fun _ =>
        .andThen plan.plain_keys hput fun created =>
          .andThen plan.plain_keys (ih h.2) fun others => .pure (created ++ others)) ?_
      simp

/-- A put of a fixed key with its content. -/
theorem seeds_put (hfixed : key ∈ fixedKeys) (hmem : key ∈ plan.keys) {body : Bytes}
    {contentType : Str} (hcontent : content w plan key = (body, contentType)) :
    Seeds (σ := σ) (content w plan) (· ∈ plan.keys) [key] (put key body contentType) := by
  obtain ⟨q, hq⟩ := exists_path_of_mem_fixedKeys key hfixed
  have habs : IsAbsolute key := hq ▸ q.isAbsolute_text
  have hrooted : rooted key = key := if_pos habs
  have hne : key ≠ [] := by
    rintro rfl
    exact absurd habs (by decide)
  have hput : Seeds (σ := σ) (content w plan) (· ∈ plan.keys) [rooted key]
      (put key (content w plan (rooted key)).1 (content w plan (rooted key)).2) :=
    .put hne ⟨q, hq.trans hrooted.symm⟩ (by rwa [hrooted])
  rwa [hrooted, hcontent] at hput

theorem seeds_putRootAcl : Seeds (σ := σ) (content w plan) (· ∈ plan.keys) plan.rootAclKeys
    (putRootAcl w plan.rootAcl) := by
  cases hroot : plan.rootAcl with
  | none =>
      rw [ProvisionPlan.rootAclKeys, hroot]
      exact .pure ()
  | some acl =>
      have hkeys : plan.rootAclKeys = ["/.acl"] := by
        rw [ProvisionPlan.rootAclKeys, hroot]
        rfl
      have hmem : ("/.acl" : Str) ∈ plan.keys := by
        rw [ProvisionPlan.keys, hkeys]
        simp
      refine .mono (.bind (Q := fun body => w.toVec acl = .ok body) plan.plain_keys (.ofResult _)
        ?_ fun body hbody => seeds_put (by decide) hmem ?_) (by rw [hkeys]; simp)
      · intro s body hbody
        cases hvec : w.toVec acl with
        | error e =>
            rw [hvec] at hbody
            cases hbody
        | ok b =>
            rw [hvec] at hbody
            cases hbody
            rfl
      · have hrootBody : rootAclBody w plan = body := by
          rw [rootAclBody, hroot, Option.bind_some, hbody]
          rfl
        rw [content_acl, hrootBody]

/-- Provisioning writes the content of the plan at the keys of the plan, and at no others. -/
theorem seeds_provisionPod (hcanonical : ∀ c ∈ plan.containers, IsContainerPath c) :
    Seeds (σ := σ) (content w plan) (· ∈ plan.keys) plan.keys (provisionPod w plan) := by
  have hall := ProvisionPlan.isContainerPath hcanonical
  have hcreate : Seeds (σ := σ) (content w plan) (· ∈ plan.keys) plan.sidecarKeys
      (createContainers plan.allContainers) :=
    seeds_createContainers fun c hc => ⟨hall c hc, hc⟩
  have hplain := plan.plain_keys
  have hcard : ("/profile/card" : Str) ∈ plan.keys := by simp [ProvisionPlan.keys]
  have hpublic : publicTypeIndexPath ∈ plan.keys := by simp [ProvisionPlan.keys]
  have hprivate : privateTypeIndexPath ∈ plan.keys := by simp [ProvisionPlan.keys]
  have hacl : publicTypeIndexAclPath ∈ plan.keys := by simp [ProvisionPlan.keys]
  have hseed : Seeds (σ := σ) (content w plan) (· ∈ plan.keys)
      (plan.sidecarKeys ++ ([("/profile/card" : Str)] ++ (plan.rootAclKeys ++
        ([publicTypeIndexPath] ++ ([privateTypeIndexPath] ++ []))))) (seedPod w plan) :=
    .andThen hplain hcreate fun created =>
      .andThen hplain (seeds_put (by decide) hcard content_card) fun _ =>
        .andThen hplain seeds_putRootAcl fun _ =>
          .andThen hplain (seeds_put (by decide) hpublic content_publicTypeIndex) fun _ =>
            .andThen hplain (seeds_put (by decide) hprivate content_privateTypeIndex) fun _ =>
              .pure created
  refine .mono (.andThen hplain hseed fun created =>
    .andThen hplain (seeds_put (by decide) hacl content_publicTypeIndexAcl) fun _ =>
      .pure (plan.outcome created)) ?_
  intro key hkey
  simpa only [ProvisionPlan.keys, List.append_assoc, List.append_nil, List.cons_append,
    List.nil_append] using hkey

end Plan

/-! ## The containers that a plan names -/

/-- A container's links advertise a key inside of it. -/
theorem describedby_mem_linkHeaders {container key : Str} (h : IsContainerPath container) :
    link key "describedby" ∈ linkHeaders container ↔ key = container ++ ".meta" := by
  obtain ⟨segments, -, rfl⟩ := h
  have hends : ∀ tail : Str, tail.getLast? ≠ some '/' → tail ≠ [] →
      endsWith tail (pathText segments ++ ['/']) = false := by
    intro tail hlast hne
    rw [← Bool.not_eq_true, endsWith, List.isSuffixOf_iff_suffix]
    rintro ⟨t, ht⟩
    have heq := congrArg List.getLast? ht
    rw [List.getLast?_append_of_ne_nil _ hne, List.getLast?_concat] at heq
    exact hlast heq
  have hacl : isAclPath (pathText segments ++ ['/']) = false := hends _ (by decide) (by decide)
  have hmeta : isMetaPath (pathText segments ++ ['/']) = false := hends _ (by decide) (by decide)
  have htype : ∀ t, link key "describedby" ≠ link t "type" := fun t =>
    link_ne_of_getLast? (by decide) (by decide) (by decide)
  have haclRel : ∀ t, link key "describedby" ≠ link t "acl" := fun t =>
    link_ne_of_getLast? (by decide) (by decide) (by decide)
  have hstorage : ∀ t, link key "describedby" ≠ link t pimStorageRel := fun t =>
    link_ne_of_getLast? (by decide) (by decide) (by decide)
  rw [linkHeaders]
  simp only [List.mem_append, hacl, hmeta, Bool.not_false, Bool.and_true, if_true,
    List.mem_singleton, link_eq_iff, metaSidecarFor, Bool.false_eq_true, if_false]
  constructor
  · rintro (((h | h) | h) | h)
    · split at h
      · simp only [List.mem_cons, List.not_mem_nil, or_false] at h
        rcases h with h | h | h
        · exact absurd h (htype _)
        · exact absurd h (htype _)
        · exact absurd h (htype _)
      · exact absurd (List.mem_singleton.mp h) (htype _)
    · exact absurd h (haclRel _)
    · exact h
    · split at h
      · exact absurd (List.mem_singleton.mp h) (hstorage _)
      · exact absurd h List.not_mem_nil
  · exact fun h => Or.inl (Or.inr h)

/-- The planned containers are there: each is listed in its parent and described under the key
that its links advertise, and to provision again changes nothing. -/
structure ContainersExist (w : JsonWriter) (plan : ProvisionPlan) (s : σ) : Prop where
  listed : ∀ parent name, IsContainerPath parent → IsSegment name →
    parent ++ name ++ ['/'] ∈ plan.containers →
      ∃ names, Storage.list s parent = .ok names ∧ name ++ ['/'] ∈ names
  described : ∀ container ∈ plan.containers, container ≠ "/" →
    ∃ key metadata, link key "describedby" ∈ linkHeaders container ∧
      Storage.get s key = .ok (utf8 "\x7b\x7d", metadata) ∧
      metadata.contentType = "application/ld+json"
  unchanged : ∀ path, Storage.get ((provisionPod w plan).exec s).2 path = Storage.get s path ∧
    Storage.list ((provisionPod w plan).exec s).2 path = Storage.list s path

section Runs

variable {w : JsonWriter} {plan : ProvisionPlan} {s : σ} {out : ProvisionOutcome}
  (hcanonical : ∀ c ∈ plan.containers, IsContainerPath c)

include hcanonical

/-- Nothing is put inside of a container for its description. -/
theorem not_stored_describedby (hempty : ∀ q : ResourcePath, ¬ Stored s q.text) {container : Str}
    (h : IsContainerPath container) (hroot : container ≠ "/") :
    ¬ Stored ((provisionPod w plan).exec s).2 (container ++ ".meta") := by
  obtain ⟨segments, hproper, rfl⟩ := h
  have hne : segments ≠ [] := by
    rintro rfl
    exact hroot rfl
  have hsegments : ∀ t ∈ segments ++ [(".meta" : Str)], IsSegment t := by
    intro t ht
    rcases List.mem_append.mp ht with ht | ht
    · exact hproper t ht
    · rw [List.mem_singleton.mp ht]
      decide
  have hlist : segments ++ [(".meta" : Str)] ≠ [] := by simp
  have htext : pathText segments ++ ['/'] ++ ".meta" =
      ResourcePath.text ⟨segments ++ [(".meta" : Str)], hlist, hsegments⟩ := by
    rw [ResourcePath.text, pathText_append, List.append_assoc]
    rfl
  have hends : endsWith ".meta" (pathText segments ++ ['/'] ++ ".meta") = true := by
    rw [endsWith, List.isSuffixOf_iff_suffix]
    exact List.suffix_append _ _
  rw [htext] at hends ⊢
  refine (seeds_provisionPod (w := w) hcanonical).not_stored (fun q hq => ⟨?_, ?_⟩) (hempty _)
  · rintro rfl
    rcases ProvisionPlan.mem_keys hq with ⟨c, hc, hkey⟩ | hfixed
    · obtain ⟨q, hq, l, n, hlast, hnil⟩ :=
        exists_metaPath (ProvisionPlan.isContainerPath hcanonical c hc)
      have hsame :=
        congrArg ResourcePath.segments (ResourcePath.text_injective (hkey.trans hq.symm))
      obtain ⟨hfront, hname⟩ := List.append_inj' (hsame.trans hlast) rfl
      have hn : n = [] := by
        have hmeta := (List.cons.inj hname).1
        exact List.append_left_eq_self.mp hmeta.symm
      exact hne (hfront.trans (hnil hn))
    · rw [(endsWith_of_mem_fixedKeys _ hfixed).1] at hends
      cases hends
  · intro hsidecar
    have hplain := endsWith_metaSuffix_eq_false hends
    rw [hsidecar, ResourcePath.text_sidecar, ← Bool.not_eq_true, endsWith,
      List.isSuffixOf_iff_suffix] at hplain
    exact hplain (List.suffix_append _ _)

theorem provisionPod_again (hrun : ((provisionPod w plan).exec s).1 = .ok out) :
    SeedStorage.Same ((provisionPod w plan).exec s).2
      ((provisionPod w plan).exec ((provisionPod w plan).exec s).2).2 :=
  (seeds_provisionPod hcanonical).again (fun _ hkey => hkey) hrun

/-- On an empty storage the containers exist exactly when the plan names none but the root. -/
theorem containersExist_iff_of_empty (hempty : ∀ q : ResourcePath, ¬ Stored s q.text)
    (hrun : ((provisionPod w plan).exec s).1 = .ok out) :
    ContainersExist w plan ((provisionPod w plan).exec s).2 ↔ ∀ c ∈ plan.containers, c = "/" := by
  constructor
  · intro h c hc
    by_contra hroot
    obtain ⟨key, metadata, hkey, hget, -⟩ := h.described c hc hroot
    rw [describedby_mem_linkHeaders (hcanonical c hc)] at hkey
    rw [hkey] at hget
    exact not_stored_describedby hcanonical hempty (hcanonical c hc) hroot ⟨_, hget⟩
  · intro h
    have hsame := provisionPod_again hcanonical hrun
    constructor
    · intro parent name hparent hname hmem
      have hlength := congrArg List.length (h _ hmem)
      have hpos := List.length_pos_of_ne_nil hname.ne_nil
      rw [List.length_append, List.length_append, List.length_singleton] at hlength
      change _ = 1 at hlength
      obtain ⟨segments, -, rfl⟩ := hparent
      rw [List.length_append, List.length_singleton] at hlength
      omega
    · exact fun c hc hroot => absurd (h c hc) hroot
    · exact fun path => ⟨(SeedStorage.get_of_same hsame path).symm,
        (SeedStorage.list_of_same hsame path).symm⟩

end Runs

/-- In an empty memory and in an empty directory the planned containers exist after a run that
succeeds exactly when the plan names none but the root. -/
theorem containersExist_iff (digest : Bytes → Str) (codec : SidecarCodec) (w : JsonWriter)
    (plan : ProvisionPlan) (hcanonical : ∀ c ∈ plan.containers, IsContainerPath c) :
    (∀ out, ((provisionPod w plan).exec (MemoryBackend.empty : MemoryBackend digest)).1 = .ok out →
      (ContainersExist w plan
          ((provisionPod w plan).exec (MemoryBackend.empty : MemoryBackend digest)).2 ↔
        ∀ c ∈ plan.containers, c = "/")) ∧
    (∀ out, ((provisionPod w plan).exec (FsBackend.empty : FsBackend digest codec)).1 = .ok out →
      (ContainersExist w plan
          ((provisionPod w plan).exec (FsBackend.empty : FsBackend digest codec)).2 ↔
        ∀ c ∈ plan.containers, c = "/")) := by
  constructor
  · intro out hrun
    refine containersExist_iff_of_empty hcanonical ?_ hrun
    rintro q ⟨r, hr⟩
    cases (MemoryBackend.get_empty q.isAbsolute_text).symm.trans hr
  · intro out hrun
    refine containersExist_iff_of_empty hcanonical ?_ hrun
    intro q hq
    obtain ⟨-, content, hcontent⟩ := FsBackend.stored_iff.mp hq
    rw [FsBackend.empty, FileTree.node_empty q.ne_nil] at hcontent
    cases hcontent

/-- A plan that names the root twice over. -/
def rootPlan : ProvisionPlan where
  pubkey := List.replicate 64 'a'
  displayName := none
  podBase := "https://pod.example.org"
  containers := ["/", "/"]
  rootAcl := none
  quotaBytes := none

/-- A directory, with an ETag that is the same for all bodies. -/
abbrev Directory := FsBackend (fun _ => "etag") plainSidecar

theorem containersExist_rootPlan :
    ContainersExist prettyWriter rootPlan
        ((provisionPod prettyWriter rootPlan).exec (MemoryBackend.empty : Server.Pod)).2 ∧
      ContainersExist prettyWriter rootPlan
        ((provisionPod prettyWriter rootPlan).exec (FsBackend.empty : Directory)).2 := by
  have hcanonical : ∀ c ∈ rootPlan.containers, IsContainerPath c := by
    intro c hc
    have hroot : ∀ c ∈ rootPlan.containers, c = "/" := by decide
    rw [hroot c hc]
    exact isContainerPath_root
  have hrun : ∃ out, ((provisionPod prettyWriter rootPlan).exec
      (FsBackend.empty : Directory)).1.toOption = some out := by
    rw [← Option.isSome_iff_exists]
    decide +kernel
  obtain ⟨out, hout⟩ := hrun
  constructor
  · exact ((containersExist_iff _ plainSidecar prettyWriter rootPlan hcanonical).1 _
      (returns_provisionPod prettyWriter rfl (by decide) MemoryBackend.empty)).mpr (by decide)
  · refine ((containersExist_iff _ _ prettyWriter rootPlan hcanonical).2 out ?_).mpr (by decide)
    cases h : ((provisionPod prettyWriter rootPlan).exec (FsBackend.empty : Directory)).1 with
    | error e =>
        rw [h] at hout
        cases hout
    | ok out' =>
        rw [h] at hout
        rw [Option.some.inj hout]

/-- A plan with a container of its own: in memory it is neither listed nor described. -/
theorem not_containersExist_examplePlan :
    ((provisionPod prettyWriter examplePlan).exec (MemoryBackend.empty : Server.Pod)).1 =
        .ok (examplePlan.outcome examplePlan.allContainers) ∧
      ¬ ContainersExist prettyWriter examplePlan
        ((provisionPod prettyWriter examplePlan).exec (MemoryBackend.empty : Server.Pod)).2 := by
  refine ⟨returns_provisionPod prettyWriter rfl (by decide) MemoryBackend.empty, fun h => ?_⟩
  obtain ⟨names, hlist, hmem⟩ := h.listed "/" "notes" isContainerPath_root (by decide) (by decide)
  have hnames : (((provisionPod prettyWriter examplePlan).exec
      (MemoryBackend.empty : Server.Pod)).2.data.keys.filterMap (MemoryBackend.childName "/")) =
        [("settings/" : Str), "settings/", "settings/", "profile/", "settings.meta",
          "profile.meta", "notes.meta", ".meta"] := by
    decide +kernel
  obtain rfl := Except.ok.inj hlist
  rw [Finset.mem_sort, List.mem_toFinset] at hmem
  exact absurd (hnames ▸ hmem) (by decide)

end Provision

end SolidPod
