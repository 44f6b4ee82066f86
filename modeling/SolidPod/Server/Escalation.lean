import SolidPod.Server.Steps

/-!
# Who can change an effective ACL

ACL documents are resources like all others, and no handler asks for the
control mode, so whoever may write or append at a key of the walk can change the
ACL that governs a path. As long as no request that gets past its check writes
at such a key, the effective ACL stays as it was in every state of the run.
-/

namespace SolidPod

namespace Server

open Foundation Str Wac Ldp

section Runs

variable {σ : Type*} [Storage σ] [LawfulStorage σ] (sv : Services)

/-- No request of the run that gets past its check writes at a key from which the
effective ACL of `path` is read. -/
def SparesAcl (path : Str) : σ → List HttpRequest → Prop :=
  AlongRun sv fun s req => ∀ w, Writes sv s req w → w.target ∉ consultedKeys sv s path

/-- The effective ACL of `path` is the same in every state of the run. -/
def AclStable (path : Str) (s : σ) (reqs : List HttpRequest) : Prop :=
  ∀ n, effectiveAcl sv (runRequests sv s (reqs.take n)) path = effectiveAcl sv s path

end Runs

/-! ## A slug that names an ACL -/

def malloryAclText : Str :=
  "<#m> a acl:Authorization; acl:agent <did:nostr:mallory>; acl:default </c/doc>; " ++
    "acl:mode acl:Control ."

/-- A child of the container `/c/` that is named as the ACL of `/c/doc`. -/
def postAcl : HttpRequest where
  method := .post
  path := "/c/"
  canonical := by decide
  pubkey := some "mallory"
  slug := some "doc.acl"
  contentType := some "text/turtle"
  body := utf8 malloryAclText
  uuid := "0b9c7f0e-3c5e-4b0e-9d0c-3f6c1f7a2d11"

/-- A child of the container `/c/` that is no ACL of `/c/doc`. -/
def postNote : HttpRequest := { postAcl with slug := some "note" }

/-- The agent has no control of `/c/doc`, makes all requests, and yet the
effective ACL of `/c/doc` is the same throughout. -/
def NoEscalation {σ : Type*} [Storage σ] (sv : Services) (path : Str) (agent : Option Str) (s : σ)
    (reqs : List HttpRequest) : Prop :=
  ¬ Permitted sv s path .control agent → (∀ req ∈ reqs, agentUri req.pubkey = agent) →
    AclStable sv path s reqs

theorem effectiveAcl_appendPod_doc :
    effectiveAcl turtleServices appendPod "/c/doc" = .ok (some appendAcl) := by
  refine effectiveAcl_of_rootAcl ["/c/doc.acl", "/c.acl"] (by decide) ?_
    get_appendPod_root visitAcl_appendAclText
  intro k hk
  simp only [List.mem_cons, List.not_mem_nil, or_false] at hk
  rcases hk with rfl | rfl
  · exact get_appendPod_of_ne (by decide) (by decide)
  · exact get_appendPod_of_ne (by decide) (by decide)

theorem serve_postAcl : (serve turtleServices appendPod postAcl).2 =
    (appendPod.put "/c/doc.acl" (utf8 malloryAclText) "text/turtle").2 := by
  have hpermitted := permitted_append_container get_appendPod_root
    (get_appendPod_of_ne (by decide) (by decide))
  have hwrites : Writes turtleServices appendPod postAcl
      (.put "/c/doc.acl" postAcl.body (storedType postAcl)) :=
    .post rfl (by decide) hpermitted (by decide)
  exact serve_snd_of_writes turtleServices hwrites

def malloryAcl : AclDocument :=
  ⟨some [{ AclAuthorization.empty with
    agent := some (.single ⟨"did:nostr:mallory"⟩)
    default := some (.single ⟨"/c/doc"⟩)
    mode := some (.single ⟨"http://www.w3.org/ns/auth/acl#Control"⟩) }]⟩

end Server

end SolidPod
