import Mathlib.Algebra.Group.Nat.Defs
import SolidPod.Security.Ssrf

/-!
# Address ranges

The ranges that the comments of the classifier list, as prefixes of addresses. An IPv4
address is public exactly when it lies in none of them. An IPv6 address that carries an
IPv4 address is classified as that one only when it is mapped, not when it is compatible,
and Teredo addresses are public.
-/

namespace SolidPod

namespace Http

/-! ## Prefixes -/

def Ipv4Addr.toNat (ip : Ipv4Addr) : Nat :=
  ((ip.a.toNat * 256 + ip.b.toNat) * 256 + ip.c.toNat) * 256 + ip.d.toNat

/-- A range of IPv4 addresses: those that agree with a base in so many leading bits. -/
structure Cidr where
  base : Ipv4Addr
  len : Nat

def Cidr.Contains (range : Cidr) (ip : Ipv4Addr) : Prop :=
  ip.toNat / 2 ^ (32 - range.len) = range.base.toNat / 2 ^ (32 - range.len)

instance (range : Cidr) (ip : Ipv4Addr) : Decidable (range.Contains ip) :=
  inferInstanceAs (Decidable (_ = _))

namespace Ipv6Addr

/-- The IPv4 address in the low bits. -/
def embedded (ip : Ipv6Addr) : Ipv4Addr :=
  ⟨(ip.s6 >>> 8).toUInt8, ip.s6.toUInt8, (ip.s7 >>> 8).toUInt8, ip.s7.toUInt8⟩

/-- `::ffff:a.b.c.d` -/
def IsMapped (ip : Ipv6Addr) : Prop :=
  ip.s0 = 0 ∧ ip.s1 = 0 ∧ ip.s2 = 0 ∧ ip.s3 = 0 ∧ ip.s4 = 0 ∧ ip.s5 = 0xffff

/-- `::a.b.c.d` -/
def IsCompatible (ip : Ipv6Addr) : Prop :=
  ip.s0 = 0 ∧ ip.s1 = 0 ∧ ip.s2 = 0 ∧ ip.s3 = 0 ∧ ip.s4 = 0 ∧ ip.s5 = 0

/-- `2001::/32` -/
def IsTeredo (ip : Ipv6Addr) : Prop := ip.s0 = 0x2001 ∧ ip.s1 = 0

end Ipv6Addr

end Http

namespace Security

open Http

/-- The ranges of the comments of the classifier. -/
def listedRanges : List Cidr :=
  [⟨⟨0, 0, 0, 0⟩, 8⟩, ⟨⟨10, 0, 0, 0⟩, 8⟩, ⟨⟨100, 64, 0, 0⟩, 10⟩, ⟨⟨127, 0, 0, 0⟩, 8⟩,
    ⟨⟨169, 254, 0, 0⟩, 16⟩, ⟨⟨172, 16, 0, 0⟩, 12⟩, ⟨⟨192, 0, 0, 0⟩, 24⟩, ⟨⟨192, 0, 2, 0⟩, 24⟩,
    ⟨⟨192, 88, 99, 0⟩, 24⟩, ⟨⟨192, 168, 0, 0⟩, 16⟩, ⟨⟨198, 18, 0, 0⟩, 15⟩,
    ⟨⟨198, 51, 100, 0⟩, 24⟩, ⟨⟨203, 0, 113, 0⟩, 24⟩, ⟨⟨224, 0, 0, 0⟩, 4⟩, ⟨⟨240, 0, 0, 0⟩, 4⟩]

def Listed (ip : Ipv4Addr) : Prop := ∃ range ∈ listedRanges, range.Contains ip

/-! ## IPv4 -/

section V4

variable {a b c d : UInt8}

set_option maxRecDepth 4096 in
/-- The mask of the shared address space. -/
theorem and_mask_iff : b &&& 0xC0 = 0x40 ↔ 64 ≤ b.toNat ∧ b.toNat < 128 := by
  have hall : ∀ n < 256, UInt8.ofNat n &&& 0xC0 = 0x40 ↔ 64 ≤ n ∧ n < 128 := by decide
  have hb := hall b.toNat b.toNat_lt
  rwa [UInt8.ofNat_toNat] at hb

/-- The leading bits of an address, by its octets. -/
theorem toNat_div :
    (⟨a, b, c, d⟩ : Ipv4Addr).toNat / 2 ^ 28 = a.toNat / 16 ∧
      (⟨a, b, c, d⟩ : Ipv4Addr).toNat / 2 ^ 24 = a.toNat ∧
      (⟨a, b, c, d⟩ : Ipv4Addr).toNat / 2 ^ 22 = a.toNat * 4 + b.toNat / 64 ∧
      (⟨a, b, c, d⟩ : Ipv4Addr).toNat / 2 ^ 20 = a.toNat * 16 + b.toNat / 16 ∧
      (⟨a, b, c, d⟩ : Ipv4Addr).toNat / 2 ^ 17 = a.toNat * 128 + b.toNat / 2 ∧
      (⟨a, b, c, d⟩ : Ipv4Addr).toNat / 2 ^ 16 = a.toNat * 256 + b.toNat ∧
      (⟨a, b, c, d⟩ : Ipv4Addr).toNat / 2 ^ 8 = (a.toNat * 256 + b.toNat) * 256 + c.toNat := by
  have ha := a.toNat_lt
  have hb := b.toNat_lt
  have hc := c.toNat_lt
  have hd := d.toNat_lt
  simp only [Ipv4Addr.toNat]
  omega

theorem octets_eq_iff (a : Nat) {b c : Nat} (hb : b < 2 ^ 8) (hc : c < 2 ^ 8) (x y z : Nat)
    (hy : y < 2 ^ 8) (hz : z < 2 ^ 8) :
    (a * 256 + b) * 256 + c = (x * 256 + y) * 256 + z ↔ a = x ∧ b = y ∧ c = z := by
  omega

/-- An address is listed by its octets. -/
theorem listed_iff : Listed ⟨a, b, c, d⟩ ↔
    a.toNat = 0 ∨ a.toNat = 10 ∨ (a.toNat = 100 ∧ 64 ≤ b.toNat ∧ b.toNat < 128) ∨
      a.toNat = 127 ∨ (a.toNat = 169 ∧ b.toNat = 254) ∨
      (a.toNat = 172 ∧ 16 ≤ b.toNat ∧ b.toNat < 32) ∨
      (a.toNat = 192 ∧ b.toNat = 0 ∧ c.toNat = 0) ∨ (a.toNat = 192 ∧ b.toNat = 0 ∧ c.toNat = 2) ∨
      (a.toNat = 192 ∧ b.toNat = 88 ∧ c.toNat = 99) ∨ (a.toNat = 192 ∧ b.toNat = 168) ∨
      (a.toNat = 198 ∧ (b.toNat = 18 ∨ b.toNat = 19)) ∨
      (a.toNat = 198 ∧ b.toNat = 51 ∧ c.toNat = 100) ∨
      (a.toNat = 203 ∧ b.toNat = 0 ∧ c.toNat = 113) ∨ 224 ≤ a.toNat := by
  have ha := a.toNat_lt
  have hb := b.toNat_lt
  have hc := c.toNat_lt
  obtain ⟨h28, h24, h22, h20, h17, h16, h8⟩ := @toNat_div a b c d
  simp only [Listed, listedRanges, List.exists_mem_cons_iff, List.not_mem_nil, false_and,
    exists_false, or_false, Cidr.Contains, Nat.reduceSub, h28, h24, h22, h20, h17, h16, h8]
  simp only [Ipv4Addr.toNat, UInt8.reduceToNat, Nat.reduceMul, Nat.reduceAdd, Nat.reducePow,
    Nat.reduceDiv]
  generalize a.toNat = A, b.toNat = B, c.toNat = C at *
  have shared : A * 4 + B / 64 = 401 ↔ A = 100 ∧ 64 ≤ B ∧ B < 128 := by omega
  have linkLocal : A * 256 + B = 43518 ↔ A = 169 ∧ B = 254 := by omega
  have private20 : A * 16 + B / 16 = 2753 ↔ A = 172 ∧ 16 ≤ B ∧ B < 32 := by omega
  have private16 : A * 256 + B = 49320 ↔ A = 192 ∧ B = 168 := by omega
  have benchmark : A * 128 + B / 2 = 25353 ↔ A = 198 ∧ (B = 18 ∨ B = 19) := by omega
  have protocol := octets_eq_iff A hb hc 192 0 0 (by decide) (by decide)
  have test1 := octets_eq_iff A hb hc 192 0 2 (by decide) (by decide)
  have anycast := octets_eq_iff A hb hc 192 88 99 (by decide) (by decide)
  have test2 := octets_eq_iff A hb hc 198 51 100 (by decide) (by decide)
  have test3 := octets_eq_iff A hb hc 203 0 113 (by decide) (by decide)
  simp only [Nat.reduceMul, Nat.reduceAdd] at protocol test1 anycast test2 test3
  have high : (A / 16 = 14 ∨ A / 16 = 15) ↔ 224 ≤ A := by omega
  rw [shared, linkLocal, private20, private16, benchmark, protocol, test1, anycast, test2, test3,
    high]

theorem ite_eq_public_iff {P : Prop} [Decidable P] {found rest : IpClass}
    (hfound : found ≠ .public) : (if P then found else rest) = .public ↔ ¬ P ∧ rest = .public := by
  by_cases hP : P
  · simp [hP, hfound]
  · simp [hP]

/-- The classifier calls public what no comment lists. -/
theorem classifyV4_eq_public_iff {ip : Ipv4Addr} : classifyV4 ip = .public ↔ ¬ Listed ip := by
  obtain ⟨a, b, c, d⟩ := ip
  rw [listed_iff]
  have ha := a.toNat_lt
  have hb := b.toNat_lt
  rw [classifyV4]
  iterate 12 rw [ite_eq_public_iff (by decide)]
  dsimp only
  rw [and_mask_iff]
  simp only [Ipv4Addr.isUnspecified, Ipv4Addr.isBroadcast, Ipv4Addr.isDocumentation,
    Ipv4Addr.isLoopback, Ipv4Addr.isLinkLocal, Ipv4Addr.isMulticast, Ipv4Addr.isPrivate,
    Bool.or_eq_true, Bool.and_eq_true, beq_iff_eq, decide_eq_true_eq, Ipv4Addr.mk.injEq,
    ← UInt8.toNat_inj, UInt8.le_iff_toNat_le, UInt8.reduceToNat, and_true, ← not_or]
  generalize a.toNat = A, b.toNat = B, c.toNat = C, d.toNat = D at *
  -- The first octet leaves at most a question about the others.
  by_cases hhigh : 224 ≤ A
  · have hcovered : 224 ≤ A ∧ A ≤ 239 ∨ 240 ≤ A := by omega
    apply not_congr
    apply iff_of_true _ (by simp only [hhigh, or_true])
    rcases hcovered with h | h
    · simp [h]
    · simp [h]
  by_cases hother : A = 0 ∨ A = 10 ∨ A = 100 ∨ A = 127 ∨ A = 169 ∨ A = 172 ∨ A = 192 ∨ A = 198 ∨
    A = 203
  · rcases hother with rfl | rfl | rfl | rfl | rfl | rfl | rfl | rfl | rfl
    all_goals simp
    all_goals omega
  · simp only [not_or] at hother
    simp [hother, hhigh]
    omega

end V4

/-! ## IPv6 -/

section V6

variable {ip : Ipv6Addr}

theorem classifyV6_of_isMapped (h : ip.IsMapped) : classifyV6 ip = classifyV4 ip.embedded := by
  obtain ⟨s0, s1, s2, s3, s4, s5, s6, s7⟩ := ip
  obtain ⟨rfl, rfl, rfl, rfl, rfl, rfl⟩ := h
  simp [classifyV6, Ipv6Addr.isUnspecified, Ipv6Addr.isLoopback, Ipv6Addr.isMulticast,
    Ipv6Addr.toIpv4Mapped, Ipv6Addr.embedded]

/-- A compatible address is not looked into. -/
theorem classifyV6_of_isCompatible (h : ip.IsCompatible) :
    classifyV6 ip = .public ↔ ¬ (ip.isUnspecified ∨ ip.isLoopback) := by
  obtain ⟨s0, s1, s2, s3, s4, s5, s6, s7⟩ := ip
  obtain ⟨rfl, rfl, rfl, rfl, rfl, rfl⟩ := h
  rw [classifyV6, ite_eq_public_iff (by decide), ite_eq_public_iff (by decide),
    ite_eq_public_iff (by decide)]
  simp [Ipv6Addr.isMulticast, Ipv6Addr.toIpv4Mapped]

theorem classifyV6_of_isTeredo (h : ip.IsTeredo) : classifyV6 ip = .public := by
  obtain ⟨s0, s1, s2, s3, s4, s5, s6, s7⟩ := ip
  obtain ⟨rfl, rfl⟩ := h
  have hmulticast : (0x2001 : UInt16) &&& 0xFF00 ≠ 0xFF00 := by decide
  have hlinkLocal : (0x2001 : UInt16) &&& 0xFFC0 ≠ 0xFE80 := by decide
  have hunique : (0x2001 : UInt16) &&& 0xFE00 ≠ 0xFC00 := by decide
  have hsite : (0x2001 : UInt16) &&& 0xFFC0 ≠ 0xFEC0 := by decide
  simp [classifyV6, Ipv6Addr.isUnspecified, Ipv6Addr.isLoopback, Ipv6Addr.isMulticast,
    Ipv6Addr.toIpv4Mapped, hmulticast, hlinkLocal, hunique, hsite]

end V6

/-! ## Embedded addresses -/

/-- What is expected of the class of an address: no listed or embedded private address is
public, and neither is an address of a tunnel. -/
structure Sheltered (ip : IpAddr) : Prop where
  listed : ∀ v4, ip = .v4 v4 → Listed v4 → classify ip ≠ .public
  embedded : ∀ v6, ip = .v6 v6 → v6.IsMapped ∨ v6.IsCompatible →
    classify ip = .public → classify (.v4 v6.embedded) = .public
  teredo : ∀ v6, ip = .v6 v6 → v6.IsTeredo → classify ip ≠ .public

/-- The addresses that are classified by the range they lie in. -/
def LookedInto : IpAddr → Prop
  | .v4 _ => True
  | .v6 ip => ¬ ip.IsTeredo ∧
    (ip.IsCompatible → ip.isUnspecified ∨ ip.isLoopback ∨ ¬ Listed ip.embedded)

theorem sheltered_v4 (v4 : Ipv4Addr) : Sheltered (.v4 v4) where
  listed := by
    rintro ip ⟨⟩ hlisted hpublic
    exact classifyV4_eq_public_iff.mp hpublic hlisted
  embedded := by
    intro v6 hv6
    cases hv6
  teredo := by
    intro v6 hv6
    cases hv6

/-- Private addresses inside others are found exactly when the other is no tunnel and, where
it is compatible, has nothing to hide. -/
theorem sheltered_iff_lookedInto (ip : IpAddr) : Sheltered ip ↔ LookedInto ip := by
  cases ip with
  | v4 v4 => exact iff_of_true (sheltered_v4 v4) trivial
  | v6 v6 =>
      constructor
      · intro h
        constructor
        · intro hteredo
          exact h.teredo v6 rfl hteredo (classifyV6_of_isTeredo hteredo)
        · intro hcompat
          by_contra! hhidden
          obtain ⟨hunspecified, hloopback, hlisted⟩ := hhidden
          have hpublic : classify (.v6 v6) = .public :=
            (classifyV6_of_isCompatible hcompat).mpr (not_or.mpr ⟨hunspecified, hloopback⟩)
          have hembedded := h.embedded v6 rfl (.inr hcompat) hpublic
          exact classifyV4_eq_public_iff.mp hembedded hlisted
      · intro ⟨hteredo, hcompat⟩
        constructor
        · intro v4 hv4
          cases hv4
        · rintro ip ⟨⟩ (hmapped | hcompatible) hpublic
          · rw [classify, classifyV6_of_isMapped hmapped] at hpublic
            exact hpublic
          · rw [classify, classifyV6_of_isCompatible hcompatible, not_or] at hpublic
            obtain ⟨hunspecified, hloopback⟩ := hpublic
            exact classifyV4_eq_public_iff.mpr
              (((hcompat hcompatible).resolve_left hunspecified).resolve_left hloopback)
        · rintro ip ⟨⟩ h
          exact absurd h hteredo

/-- The address `::10.0.0.1` is public, and `10.0.0.1` is not. -/
theorem not_sheltered_compatible :
    ¬ Sheltered (.v6 ⟨0, 0, 0, 0, 0, 0, 0x0a00, 0x0001⟩) := by
  intro h
  have hprivate := h.embedded _ rfl (.inr ⟨rfl, rfl, rfl, rfl, rfl, rfl⟩) (by decide)
  exact absurd hprivate (by decide)

end Security

end SolidPod
