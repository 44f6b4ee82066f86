import Mathlib.Data.List.Basic

/-!
# Builds of the workspace

The features of the core library that a build has. Every package of the build
names the ones it needs in its manifest, and the build has all of them, with those
that they imply.
-/

namespace SolidPod

inductive Package where
  | solidPodRs
  | server
  | activitypub
  | git
  | idp
  | nostr
  | didkey
  deriving DecidableEq

/-- The features of `solid-pod-rs`. -/
inductive CoreFeature where
  | fsBackend
  | memoryBackend
  | s3Backend
  | oidc
  | nip98Schnorr
  | jssV04
  | securityPrimitives
  | legacyNotifications
  | aclOrigin
  | dpopReplayCache
  | configLoader
  | webhookSigning
  | didNostr
  | rateLimit
  | quota
  deriving DecidableEq

def CoreFeature.implies : CoreFeature → List CoreFeature
  | .fsBackend | .memoryBackend | .s3Backend | .oidc | .nip98Schnorr | .jssV04 => []
  | .securityPrimitives | .legacyNotifications | .aclOrigin | .configLoader | .webhookSigning
  | .rateLimit => [.jssV04]
  | .dpopReplayCache => [.oidc, .jssV04]
  | .didNostr => [.jssV04, .securityPrimitives]
  | .quota => [.jssV04, .configLoader]

/-- The packages of the workspace that a manifest depends on. -/
def Package.dependencies : Package → List Package
  | .solidPodRs => []
  | .server => [.solidPodRs, .idp]
  | .activitypub | .git | .idp | .nostr | .didkey => [.solidPodRs]

/-- The features that a manifest asks the core library for. -/
def Package.requests : Package → List CoreFeature
  | .solidPodRs | .activitypub | .git => []
  | .server => [.fsBackend, .memoryBackend, .configLoader, .legacyNotifications]
  | .idp => [.oidc, .dpopReplayCache, .rateLimit, .securityPrimitives, .nip98Schnorr]
  | .nostr => [.nip98Schnorr, .didNostr, .securityPrimitives]
  | .didkey => [.securityPrimitives]

/-- The packages that are built and the features that are switched on by hand. -/
structure Build where
  roots : List Package
  flags : List CoreFeature

namespace Build

def packages (b : Build) : List Package :=
  let direct := b.roots.flatMap Package.dependencies
  b.roots ++ direct ++ direct.flatMap Package.dependencies

def features (b : Build) : List CoreFeature :=
  let asked := b.flags ++ b.packages.flatMap Package.requests
  let implied := asked.flatMap CoreFeature.implies
  asked ++ implied ++ implied.flatMap CoreFeature.implies

def has (b : Build) (f : CoreFeature) : Bool := b.features.contains f

theorem nip98Schnorr_notMem_implies (f : CoreFeature) : .nip98Schnorr ∉ f.implies := by
  cases f <;> decide

theorem idp_mem_dependencies {p : Package} : .idp ∈ p.dependencies ↔ p = .server := by
  cases p <;> decide

theorem notMem_dependencies {p q : Package} (hq : q = .server ∨ q = .nostr) :
    q ∉ p.dependencies := by
  rcases hq with rfl | rfl <;> cases p <;> decide

theorem idp_mem_packages {b : Build} : .idp ∈ b.packages ↔ .server ∈ b.roots ∨ .idp ∈ b.roots := by
  simp only [packages, List.mem_append, List.mem_flatMap, idp_mem_dependencies, exists_eq_right,
    notMem_dependencies (Or.inl rfl), and_false, exists_false, or_false]
  exact or_comm

theorem nostr_mem_packages {b : Build} : .nostr ∈ b.packages ↔ .nostr ∈ b.roots := by
  simp only [packages, List.mem_append, List.mem_flatMap, notMem_dependencies (Or.inr rfl),
    and_false, exists_false, or_false]

theorem requests_nip98Schnorr {p : Package} :
    .nip98Schnorr ∈ p.requests ↔ p = .idp ∨ p = .nostr := by
  cases p <;> decide

/-- Signatures are checked in a build with the feature by hand or with a package
that needs it. -/
theorem has_nip98Schnorr_iff (b : Build) : b.has .nip98Schnorr = true ↔
    .nip98Schnorr ∈ b.flags ∨ .server ∈ b.roots ∨ .idp ∈ b.roots ∨ .nostr ∈ b.roots := by
  have hasked : b.has .nip98Schnorr = true ↔
      .nip98Schnorr ∈ b.flags ++ b.packages.flatMap Package.requests := by
    simp only [has, features, List.contains_iff_mem, List.mem_append, List.mem_flatMap,
      nip98Schnorr_notMem_implies, and_false, exists_false, or_false]
  rw [hasked, List.mem_append, List.mem_flatMap]
  simp only [requests_nip98Schnorr, and_or_left, exists_or, exists_eq_right, idp_mem_packages,
    nostr_mem_packages, or_assoc]

end Build

end SolidPod
