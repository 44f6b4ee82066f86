import SolidPod.Foundation.Encodings
import SolidPod.Security.Ssrf

/-!
# Hosts on the lists of the operator

An entry of the lists names a host: a domain, with or without the dot of the root, an IPv4
address or an IPv6 address in brackets, with or without a port. The guard compares the part of
an entry before its first colon with the text of the host. A denied host stays out and an
allowed one lets no other in, except where a bracket, a dot or something else than a port comes
between.
-/

namespace SolidPod

open Foundation Str

namespace Http

/-! ## Texts of addresses -/

/-- The value of hexadecimal digits. -/
def hexNumber (t : Str) : Option Nat :=
  t.foldlM (fun n c => (Hex.value c).map (16 * n + ·)) 0

/-- A segment as one to four hexadecimal digits. -/
def IsGroup (w : UInt16) (t : Str) : Prop :=
  t ≠ [] ∧ t.length ≤ 4 ∧ hexNumber t = some w.toNat

/-- Segments between colons; the last two may be written as an IPv4 address. -/
inductive Groups : (dotted : Bool) → List UInt16 → Str → Prop
  | one {dotted : Bool} {w : UInt16} {t : Str} (h : IsGroup w t) : Groups dotted [w] t
  | dotted {ip : Ipv4Addr} {high low : UInt16}
      (hhigh : high.toNat = ip.a.toNat * 256 + ip.b.toNat)
      (hlow : low.toNat = ip.c.toNat * 256 + ip.d.toNat) : Groups true [high, low] ip.display
  | cons {dotted : Bool} {w : UInt16} {t : Str} {ws : List UInt16} {s : Str} (h : IsGroup w t)
      (hs : Groups dotted ws s) : Groups dotted (w :: ws) (t ++ ':' :: s)

def GroupsOrNone (dotted : Bool) (ws : List UInt16) (s : Str) : Prop :=
  (ws = [] ∧ s = []) ∨ Groups dotted ws s

/-- The texts of an IPv6 address: all segments, or two colons for a run of zeros. -/
inductive Ipv6Text (ip : Ipv6Addr) : Str → Prop
  | full {s : Str} (h : Groups true ip.segments s) : Ipv6Text ip s
  | compressed {left right : List UInt16} {l r : Str} {n : Nat} (hleft : GroupsOrNone false left l)
      (hright : GroupsOrNone true right r) (hn : 0 < n)
      (h : ip.segments = left ++ List.replicate n 0 ++ right) : Ipv6Text ip (l ++ "::" ++ r)

theorem Ipv6Addr.colon_mem_urlText (ip : Ipv6Addr) : ':' ∈ ip.urlText := by
  rw [Ipv6Addr.urlText]
  split_ifs with hzeros
  · simp
  · simp [Ipv6Addr.showSegments, Ipv6Addr.segments, join, List.intercalate]

/-- The text of an IPv4 address has digits and dots only. -/
theorem Ipv4Addr.digit_or_dot {ip : Ipv4Addr} : ∀ c ∈ ip.display, c.isDigit = true ∨ c = '.' := by
  have hdigits : ∀ (n : Nat), ∀ c ∈ decimal n, c.isDigit = true := by
    intro n c hc
    exact Nat.isDigit_of_mem_toDigits (by decide) (by decide) hc
  intro c hc
  simp only [display, join, List.map_cons, List.map_nil, List.intercalate_cons_cons,
    List.intercalate_singleton, List.mem_append] at hc
  rcases hc with (hc | hc) | (hc | hc) | (hc | hc) | hc
  · exact .inl (hdigits _ c hc)
  · exact .inr (List.mem_singleton.mp hc)
  · exact .inl (hdigits _ c hc)
  · exact .inr (List.mem_singleton.mp hc)
  · exact .inl (hdigits _ c hc)
  · exact .inr (List.mem_singleton.mp hc)
  · exact .inl (hdigits _ c hc)

theorem Ipv4Addr.colon_notMem_display (ip : Ipv4Addr) : ':' ∉ ip.display := by
  intro h
  rcases digit_or_dot _ h with hdigit | hdot
  · exact absurd hdigit (by decide)
  · exact absurd hdot (by decide)

theorem Ipv4Addr.toAsciiLowercase_display (ip : Ipv4Addr) :
    toAsciiLowercase ip.display = ip.display := by
  have hsame : ∀ c ∈ ip.display, c.toLower = c := by
    intro c hc
    rcases digit_or_dot c hc with hdigit | rfl
    · refine dif_neg fun hupper => ?_
      have hlow : 65 ≤ c.val.toNat := hupper.1
      simp only [Char.isDigit, Bool.and_eq_true, decide_eq_true_eq] at hdigit
      have hhigh : c.val.toNat ≤ 57 := hdigit.2
      omega
    · decide
  rw [toAsciiLowercase, List.map_congr_left hsame, List.map_id']

end Http

namespace Security

open Http Program

/-! ## What an entry names -/

/-- The dot of the root at the end of a domain. -/
def Rooted (d : Str) : Prop := d.getLast? = some '.'

instance (d : Str) : Decidable (Rooted d) := inferInstanceAs (Decidable (_ = _))

def unrooted (d : Str) : Str := if Rooted d then d.dropLast else d

/-- A colon and a number, or nothing. -/
def IsPort (t : Str) : Prop := t = [] ∨ ∃ digits : Str, t = ':' :: digits ∧ ∀ c ∈ digits, c.isDigit

/-- The texts of a host in lower case. -/
def Spells (t : Str) : Host → Prop
  | .literal (.v4 ip) => t = ip.display
  | .literal (.v6 ip) => ∃ s, t = '[' :: s ++ [']'] ∧ Ipv6Text ip s
  | .name d => t ≠ [] ∧ ':' ∉ t ∧ unrooted t = unrooted (toAsciiLowercase d)

/-- An entry as it is compared, without the white space around it and in lower case. -/
def folded (entry : Str) : Str := toAsciiLowercase (trim entry)

/-- An entry names a host in any letter case, with or without a port. -/
def Names (entry : Str) (host : Host) : Prop :=
  ∃ t port, folded entry = t ++ port ∧ IsPort port ∧ Spells t host

def afterHost (s : Str) : Str := s.drop (hostPart s).length

theorem eq_of_unrooted {a b : Str} (h : unrooted a = unrooted b) (hdot : Rooted a ↔ Rooted b) :
    a = b := by
  unfold unrooted at h
  by_cases ha : Rooted a
  · have hb := hdot.mp ha
    rw [if_pos ha, if_pos hb] at h
    rw [← List.dropLast_append_getLast? '.' ha, ← List.dropLast_append_getLast? '.' hb, h]
  · rwa [if_neg ha, if_neg (mt hdot.mpr ha)] at h

/-! ## What the guard compares -/

/-- A text is the part before its first colon and what follows it. -/
theorem hostPart_append_afterHost (s : Str) :
    s = hostPart s ++ afterHost s ∧ ':' ∉ hostPart s := by
  rw [afterHost, hostPart]
  cases h : splitOnce ':' s with
  | none =>
      constructor
      · simp
      · rw [Option.elim_none]
        intro hmem
        obtain ⟨p, r, hs, hp⟩ := List.eq_append_cons_of_mem hmem
        rw [hs, splitOnce_append hp] at h
        cases h
  | some pieces =>
      obtain ⟨hs, hp⟩ := eq_append_of_splitOnce h
      constructor
      · simp [hs]
      · exact hp

theorem hostPart_append {t port : Str} (ht : ':' ∉ t) (hport : IsPort port) :
    hostPart (t ++ port) = t := by
  rcases hport with rfl | ⟨digits, rfl, -⟩
  · rw [List.append_nil, hostPart, splitOnce_eq_none ht, Option.elim_none]
  · rw [hostPart, splitOnce_append ht, Option.elim_some]

/-- The guard takes an entry for a host when the part before the first colon is its text. -/
def Matches (entry : Str) (host : Host) : Prop :=
  hostPart (folded entry) ≠ [] ∧ hostPart (folded entry) = toAsciiLowercase (hostStr host)

theorem listContainsHost_iff {list : List Str} {host : Host} :
    listContainsHost list (toAsciiLowercase (hostStr host)) = true ↔
      ∃ entry ∈ list, Matches entry host := by
  simp [listContainsHost, Matches, folded]

/-- No entry is taken for an address in brackets. -/
theorem not_matches_v6 {entry : Str} {ip : Ipv6Addr} : ¬ Matches entry (.literal (.v6 ip)) := by
  rintro ⟨-, h⟩
  apply (hostPart_append_afterHost (folded entry)).2
  rw [h]
  have hmem : ':' ∈ hostStr (.literal (.v6 ip)) := by
    simp [hostStr, ip.colon_mem_urlText]
  exact List.mem_map.mpr ⟨':', hmem, by decide⟩

/-- An entry that is not in brackets names a host with the part before its colon. -/
theorem names_iff {entry : Str} {host : Host} (hhost : ∀ ip, host ≠ .literal (.v6 ip)) :
    Names entry host ↔
      IsPort (afterHost (folded entry)) ∧ Spells (hostPart (folded entry)) host := by
  constructor
  · intro ⟨t, port, hentry, hport, ht⟩
    have hcolon : ':' ∉ t := by
      cases host with
      | literal ip =>
          cases ip with
          | v4 ip => exact ht ▸ ip.colon_notMem_display
          | v6 ip => exact absurd rfl (hhost ip)
      | name d => exact ht.2.1
    have hpart : hostPart (folded entry) = t := by rw [hentry, hostPart_append hcolon hport]
    have hafter : afterHost (folded entry) = port := by
      rw [afterHost, hpart, hentry, List.drop_left]
    rw [hafter, hpart]
    exact ⟨hport, ht⟩
  · intro ⟨hport, ht⟩
    exact ⟨_, _, (hostPart_append_afterHost _).1, hport, ht⟩

/-! ## The check of a host -/

namespace SsrfPolicy

def withAllowlist (policy : SsrfPolicy) (hosts : List Str) : SsrfPolicy :=
  { policy with allowlist := hosts }

def withDenylist (policy : SsrfPolicy) (hosts : List Str) : SsrfPolicy :=
  { policy with denylist := hosts }

/-- What the check makes of an answer of the network. -/
def answer (policy : SsrfPolicy) (host : Host) : Except Str (List IpAddr) → Except SsrfError IpAddr
  | .error e => .error (.dnsFailure (hostStr host) e)
  | .ok [] => .error (.noAddresses (hostStr host))
  | .ok (ip :: _) => policy.checkAddress host ip

theorem exec_resolveAndCheck {policy : SsrfPolicy} {net : Net} {url : Url} {host : Host}
    (hhost : url.host = some host) (log : Log) :
    ((policy.resolveAndCheck net url).exec log).1 =
      policy.answer host (net.resolve log.turn host) := by
  have hmapped : ((net.ask host : Program Log Str _).mapError
      (SsrfError.dnsFailure (hostStr host))).exec log =
      ((net.resolve log.turn host).mapError (SsrfError.dnsFailure (hostStr host)),
        { log with turn := log.turn + 1 }) := rfl
  rw [resolveAndCheck, hhost]
  simp only [exec_bind, hmapped]
  cases hresolve : net.resolve log.turn host with
  | error e => rfl
  | ok addrs =>
      cases addrs with
      | nil => rfl
      | cons ip rest => rfl

theorem answer_eq_ok_iff {policy : SsrfPolicy} {host : Host} {r : Except Str (List IpAddr)}
    {ip : IpAddr} :
    policy.answer host r = .ok ip ↔ policy.Permits host ip ∧ ∃ rest, r = .ok (ip :: rest) := by
  cases r with
  | error e => simp [answer]
  | ok addrs =>
      cases addrs with
      | nil => simp [answer]
      | cons ip' rest =>
          rw [answer, checkAddress_eq_ok_iff]
          constructor
          · rintro ⟨hpermits, rfl⟩
            exact ⟨hpermits, rest, rfl⟩
          · rintro ⟨hpermits, rest', hrest⟩
            cases hrest
            exact ⟨hpermits, rfl⟩

end SsrfPolicy

/-! ## Respected entries -/

/-- A denied entry keeps out the hosts it names, whatever the network answers, and an allowed
one changes nothing for the others. -/
structure Respected (entry : Str) (host : Host) : Prop where
  denied : Names entry host → ∀ (policy : SsrfPolicy) (net : Net) (url : Url) (log : Log)
    (ip : IpAddr), entry ∈ policy.denylist → url.host = some host →
      ((policy.resolveAndCheck net url).exec log).1 ≠ .ok ip
  allowed : ¬ Names entry host → ∀ (policy : SsrfPolicy) (before after : List Str) (net : Net)
    (url : Url) (log : Log), url.host = some host →
      (((policy.withAllowlist (before ++ entry :: after)).resolveAndCheck net url).exec log).1 =
        (((policy.withAllowlist (before ++ after)).resolveAndCheck net url).exec log).1

/-- The entries that the comparison of texts does justice to: a domain has the dot of the root
when the host has, an address in brackets is one that no toggle permits, and only a port follows
the first colon. -/
structure Comparable (entry : Str) (host : Host) : Prop where
  dot : ∀ d, host = .name d → Names entry host →
    (Rooted (hostPart (folded entry)) ↔ Rooted (toAsciiLowercase d))
  bracket : ∀ ip, host = .literal (.v6 ip) → Names entry host →
    classify (.v6 ip) = .multicast ∨ classify (.v6 ip) = .reserved
  port : ¬ IsPort (afterHost (folded entry)) → Matches entry host →
    ∃ ip, host = .literal ip ∧ classify ip = .public

/-- The network that knows one address. -/
def answering (ip : IpAddr) : Net := ⟨fun _ _ => .ok [ip], fun _ _ => true, fun _ _ => .error []⟩

def addressOr (ip : IpAddr) : Host → IpAddr
  | .literal own => own
  | .name _ => ip

theorem resolve_answering (ip : IpAddr) (turn : Nat) (host : Host) :
    (answering ip).resolve turn host = .ok [addressOr ip host] := by
  cases host with
  | literal own => rfl
  | name d => rfl

/-- A policy that permits what a toggle can permit. -/
def allToggles : SsrfPolicy := ⟨true, true, true, [], []⟩

section Entry

variable {entry : Str} {host : Host}

/-- An entry that names a host and is comparable is taken for it. -/
theorem matches_of_names (h : Comparable entry host) (hnames : Names entry host)
    (hhost : ∀ ip, host ≠ .literal (.v6 ip)) : Matches entry host := by
  obtain ⟨-, hspells⟩ := (names_iff hhost).mp hnames
  cases host with
  | name d =>
      obtain ⟨hne, -, hsame⟩ := hspells
      exact ⟨hne, eq_of_unrooted hsame (h.dot d rfl hnames)⟩
  | literal ip =>
      cases ip with
      | v6 ip => exact absurd rfl (hhost ip)
      | v4 ip =>
          change hostPart (folded entry) = ip.display at hspells
          rw [Matches, hspells]
          constructor
          · simp [Ipv4Addr.display, join, List.intercalate]
          · exact ip.toAsciiLowercase_display.symm

/-- An entry that is taken for a host names it, when a port or nothing follows. -/
theorem names_of_matches (hmatches : Matches entry host)
    (hport : IsPort (afterHost (folded entry))) : Names entry host := by
  obtain ⟨hne, hsame⟩ := hmatches
  have hhost : ∀ ip, host ≠ .literal (.v6 ip) := by
    rintro ip rfl
    exact not_matches_v6 ⟨hne, hsame⟩
  apply (names_iff hhost).mpr
  constructor
  · exact hport
  · cases host with
    | name d => exact ⟨hne, (hostPart_append_afterHost _).2, congrArg unrooted hsame⟩
    | literal ip =>
        cases ip with
        | v6 ip => exact absurd rfl (hhost ip)
        | v4 ip => exact hsame.trans ip.toAsciiLowercase_display

theorem denied_of_comparable (h : Comparable entry host) (hnames : Names entry host)
    {policy : SsrfPolicy} {net : Net} {turn : Nat} {ip : IpAddr} (hmem : entry ∈ policy.denylist) :
    policy.answer host (net.resolve turn host) ≠ .ok ip := by
  intro hok
  obtain ⟨⟨hdeny, hallow⟩, rest, hresolve⟩ := SsrfPolicy.answer_eq_ok_iff.mp hok
  by_cases hhost : ∃ own, host = .literal (.v6 own)
  · -- The address is never on a list, and its class is not permitted.
    obtain ⟨own, rfl⟩ := hhost
    have hip : ip = .v6 own := by
      cases hresolve
      rfl
    rcases hallow with hallow | hclass
    · obtain ⟨other, -, hother⟩ := listContainsHost_iff.mp hallow
      exact not_matches_v6 hother
    · rcases h.bracket own rfl hnames with hfixed | hfixed
      · rw [hip, hfixed] at hclass
        cases hclass
      · rw [hip, hfixed] at hclass
        cases hclass
  · have hmatches := matches_of_names h hnames fun own hown => hhost ⟨own, hown⟩
    rw [listContainsHost_iff.mpr ⟨entry, hmem, hmatches⟩] at hdeny
    cases hdeny

theorem checkAddress_withAllowlist_congr {policy : SsrfPolicy} {list list' : List Str}
    {ip : IpAddr} (h : policy.permitsClass (classify ip) = true ∨
      listContainsHost list (toAsciiLowercase (hostStr host)) =
        listContainsHost list' (toAsciiLowercase (hostStr host))) :
    (policy.withAllowlist list).checkAddress host ip =
      (policy.withAllowlist list').checkAddress host ip := by
  rw [SsrfPolicy.checkAddress, SsrfPolicy.checkAddress]
  rcases h with hclass | hlist
  · have hpermits : ∀ l, (policy.withAllowlist l).permitsClass (classify ip) = true :=
      fun _ => hclass
    simp only [hpermits, if_true, ite_self]
    rfl
  · change (if _ then _ else if listContainsHost list _ = true then _ else _) =
      (if _ then _ else if listContainsHost list' _ = true then _ else _)
    rw [hlist]
    rfl

theorem listContainsHost_insert {before after : List Str} (h : ¬ Matches entry host) :
    listContainsHost (before ++ entry :: after) (toAsciiLowercase (hostStr host)) =
      listContainsHost (before ++ after) (toAsciiLowercase (hostStr host)) := by
  have hentry : listContainsHost [entry] (toAsciiLowercase (hostStr host)) = false := by
    rw [Bool.eq_false_iff, Ne, listContainsHost_iff]
    rintro ⟨other, hother, hmatches⟩
    rw [List.mem_singleton.mp hother] at hmatches
    exact h hmatches
  have hsplit : ∀ l l', listContainsHost (l ++ l') (toAsciiLowercase (hostStr host)) =
      (listContainsHost l (toAsciiLowercase (hostStr host)) ||
        listContainsHost l' (toAsciiLowercase (hostStr host))) := fun l l' => List.any_append
  rw [← List.singleton_append, hsplit, hsplit [entry], hentry, Bool.false_or, ← hsplit]

/-- An entry that does not name a host and is comparable makes no difference to it. -/
theorem allowed_of_comparable (h : Comparable entry host) (hnames : ¬ Names entry host)
    (policy : SsrfPolicy) (before after : List Str) (net : Net) (turn : Nat) :
    (policy.withAllowlist (before ++ entry :: after)).answer host (net.resolve turn host) =
      (policy.withAllowlist (before ++ after)).answer host (net.resolve turn host) := by
  have hcheck : ∀ ip rest, net.resolve turn host = .ok (ip :: rest) →
      (policy.withAllowlist (before ++ entry :: after)).checkAddress host ip =
        (policy.withAllowlist (before ++ after)).checkAddress host ip := by
    intro ip rest hresolve
    apply checkAddress_withAllowlist_congr
    by_cases hmatches : Matches entry host
    · obtain ⟨own, rfl, hpublic⟩ :=
        h.port (fun hport => hnames (names_of_matches hmatches hport)) hmatches
      cases hresolve
      rw [hpublic]
      exact .inl rfl
    · exact .inr (listContainsHost_insert hmatches)
  cases hresolve : net.resolve turn host with
  | error e => rfl
  | ok addrs =>
      cases addrs with
      | nil => rfl
      | cons ip rest => exact hcheck ip rest hresolve

/-- A host whose address is permitted and that no denied entry is taken for gets in. -/
theorem denied_entry_matches (h : Respected entry host) (hnames : Names entry host) (ip : IpAddr)
    (hclass : allToggles.permitsClass (classify (addressOr ip host)) = true) :
    Matches entry host := by
  by_contra hmatches
  let policy := allToggles.withDenylist [entry]
  have hdeny : listContainsHost [entry] (toAsciiLowercase (hostStr host)) = false := by
    rw [Bool.eq_false_iff, Ne, listContainsHost_iff]
    rintro ⟨other, hother, hother'⟩
    rw [List.mem_singleton.mp hother] at hother'
    exact hmatches hother'
  let url : Url := ⟨[], some host, [], []⟩
  apply h.denied hnames policy (answering ip) url ⟨0, []⟩ (addressOr ip host)
    List.mem_cons_self rfl
  rw [SsrfPolicy.exec_resolveAndCheck rfl, resolve_answering, SsrfPolicy.answer_eq_ok_iff]
  exact ⟨⟨hdeny, .inr hclass⟩, [], rfl⟩

theorem permitsClass_new_iff {ipClass : IpClass} :
    SsrfPolicy.new.permitsClass ipClass = true ↔ ipClass = .public := by
  cases ipClass <;> simp [SsrfPolicy.permitsClass, SsrfPolicy.new]

/-- An entry that is taken for a host which it does not name lets it in. -/
theorem public_of_respected (h : Respected entry host) (hmatches : Matches entry host)
    (hnames : ¬ Names entry host) : classify (addressOr (.v4 ⟨10, 0, 0, 1⟩) host) = .public := by
  let url : Url := ⟨[], some host, [], []⟩
  have hsame := h.allowed hnames .new [] [] (answering (.v4 ⟨10, 0, 0, 1⟩)) url ⟨0, []⟩ rfl
  rw [SsrfPolicy.exec_resolveAndCheck rfl, SsrfPolicy.exec_resolveAndCheck rfl,
    resolve_answering] at hsame
  have hwith : (SsrfPolicy.new.withAllowlist ([] ++ entry :: [])).answer host
      (.ok [addressOr (.v4 ⟨10, 0, 0, 1⟩) host]) = .ok (addressOr (.v4 ⟨10, 0, 0, 1⟩) host) := by
    apply SsrfPolicy.answer_eq_ok_iff.mpr
    refine ⟨⟨rfl, .inl ?_⟩, [], rfl⟩
    exact listContainsHost_iff.mpr ⟨entry, List.mem_cons_self, hmatches⟩
  rw [hsame] at hwith
  obtain ⟨⟨-, hallow⟩, -⟩ := SsrfPolicy.answer_eq_ok_iff.mp hwith
  rcases hallow with hallow | hclass
  · cases hallow
  · exact permitsClass_new_iff.mp hclass

/-- The entries of the lists say what they name exactly when their texts can be compared. -/
theorem respected_iff_comparable (entry : Str) (host : Host) :
    Respected entry host ↔ Comparable entry host := by
  constructor
  · intro h
    constructor
    · rintro d rfl hnames
      have hpublic : allToggles.permitsClass (classify (.v4 ⟨8, 8, 8, 8⟩)) = true := by decide
      have hmatches := denied_entry_matches h hnames (.v4 ⟨8, 8, 8, 8⟩) hpublic
      rw [hmatches.2]
      rfl
    · rintro ip rfl hnames
      by_contra! hother
      obtain ⟨hmulticast, hreserved⟩ := hother
      apply not_matches_v6 (denied_entry_matches h hnames (.v6 ip) _)
      change allToggles.permitsClass (classify (.v6 ip)) = true
      cases hclass : classify (.v6 ip) with
      | multicast => exact absurd hclass hmulticast
      | reserved => exact absurd hclass hreserved
      | «public» => rfl
      | «private» => rfl
      | loopback => rfl
      | linkLocal => rfl
    · intro hport hmatches
      have hhost : ∀ ip, host ≠ .literal (.v6 ip) := by
        rintro ip rfl
        exact not_matches_v6 hmatches
      have hnames : ¬ Names entry host := by
        intro hnames
        exact hport ((names_iff hhost).mp hnames).1
      have hpublic := public_of_respected h hmatches hnames
      cases host with
      | literal own => exact ⟨own, rfl, hpublic⟩
      | name d =>
          change classify (.v4 ⟨10, 0, 0, 1⟩) = .public at hpublic
          exact absurd hpublic (by decide)
  · intro h
    constructor
    · intro hnames policy net url log ip hmem hhost
      rw [SsrfPolicy.exec_resolveAndCheck hhost]
      exact denied_of_comparable h hnames hmem
    · intro hnames policy before after net url log hhost
      rw [SsrfPolicy.exec_resolveAndCheck hhost, SsrfPolicy.exec_resolveAndCheck hhost]
      exact allowed_of_comparable h hnames policy before after net log.turn

theorem names_loopback : Names ("[::1]" : Str) (.literal (.v6 ⟨0, 0, 0, 0, 0, 0, 0, 1⟩)) := by
  refine ⟨"[::1]", [], by decide, .inl rfl, "::1", rfl, ?_⟩
  have hright : GroupsOrNone true [1] ("1" : Str) := .inr (.one ⟨by decide, by decide, by decide⟩)
  exact @Ipv6Text.compressed _ [] [1] [] "1" 7 (.inl ⟨rfl, rfl⟩) hright (by decide) rfl

/-- The entry `[::1]` does not keep out its host where loopback addresses are permitted. -/
theorem not_respected_loopback :
    ¬ Respected "[::1]" (.literal (.v6 ⟨0, 0, 0, 0, 0, 0, 0, 1⟩)) := by
  intro h
  have hloopback : allToggles.permitsClass (classify (.v6 ⟨0, 0, 0, 0, 0, 0, 0, 1⟩)) = true := by
    decide
  exact not_matches_v6
    (denied_entry_matches h names_loopback (.v6 ⟨0, 0, 0, 0, 0, 0, 0, 1⟩) hloopback)

end Entry

end Security

end SolidPod
