import SolidPod.Notifications.Basic

/-!
# The fan-outs of a change

The webhook manager matches a topic that the path merely begins with, the legacy
channel asks for a container as well, and the legacy session climbs the
containers of the resource up to the origin. They deliver the same changes to a
topic unless it is the beginning of a name, lies within the slashes at the end of
the resource, or within the scheme and authority of a URL.
-/

namespace SolidPod

open Foundation

namespace Notifications

open Str

/-- The topic is a container, and the resource lies in it. -/
def ProperAncestor (topic uri : Str) : Prop := ['/'] <:+ topic ∧ topic <+: uri ∧ topic ≠ uri

/-- The resource is the topic, or lies in it. -/
def Covers (topic uri : Str) : Prop := topic = uri ∨ ProperAncestor topic uri

/-- Where the text has a scheme, the topic goes on to the slash after its
authority. -/
def ReachesPath (topic text : Str) : Prop :=
  "://".toList <:+: text → ∃ a b, topic = a ++ ("://".toList ++ b) ∧ '/' ∈ b

/-! ## The containers above a resource -/

theorem ancestorsFrom_eq_nil {originEnd : Nat} {cursor : Str}
    (h : '/' ∉ cursor.drop originEnd) : ancestorsFrom originEnd cursor = [] := by
  rw [ancestorsFrom]
  split
  · rfl
  · rename_i lastSlashRel hsome
    rw [rfind_eq_none.mpr h] at hsome
    cases hsome

/-- The last slash after the origin ends the nearest container. -/
theorem ancestorsFrom_eq_cons {originEnd lastSlashRel : Nat} {cursor : Str}
    (h : rfind '/' (cursor.drop originEnd) = some lastSlashRel) :
    ∃ q r, cursor = q ++ '/' :: r ∧ '/' ∉ r ∧ originEnd ≤ q.length ∧
      ancestorsFrom originEnd cursor =
        if q.length = originEnd then [q ++ ['/']]
        else (q ++ ['/']) :: ancestorsFrom originEnd q := by
  obtain ⟨q, r, rfl, hq, hr⟩ := split_of_rfind_drop h
  refine ⟨q, r, rfl, hr, by omega, ?_⟩
  have hparent : (q ++ '/' :: r).take (originEnd + lastSlashRel + 1) = q ++ ['/'] := by
    rw [← hq, List.take_length_add_append]
    rfl
  have hcursor : (q ++ '/' :: r).take (originEnd + lastSlashRel) = q := by
    rw [← hq, List.take_left]
  rw [ancestorsFrom]
  split
  · rename_i hnone
    rw [h] at hnone
    cases hnone
  · rename_i n hsome
    cases h.symm.trans hsome
    simp only [hparent, hcursor, List.length_append, List.length_singleton]
    congr 1
    simp only [eq_iff_iff]
    omega

theorem mem_ancestorsFrom {originEnd : Nat} {cursor topic : Str} :
    topic ∈ ancestorsFrom originEnd cursor ↔
      ∃ p, topic = p ++ ['/'] ∧ topic <+: cursor ∧ originEnd ≤ p.length := by
  induction hlength : cursor.length using Nat.strong_induction_on generalizing cursor with
  | _ n ih =>
      cases hlast : rfind '/' (cursor.drop originEnd) with
      | none =>
          have hslash := rfind_eq_none.mp hlast
          rw [ancestorsFrom_eq_nil hslash]
          refine iff_of_false List.not_mem_nil ?_
          rintro ⟨p, rfl, ⟨r, rfl⟩, hp⟩
          rw [List.append_assoc, List.drop_append_of_le_length hp] at hslash
          exact hslash (List.mem_append_right _ List.mem_cons_self)
      | some lastSlashRel =>
          obtain ⟨q, r, rfl, hr, hq, hancestors⟩ := ancestorsFrom_eq_cons hlast
          have hsplit : (∃ p, topic = p ++ ['/'] ∧ topic <+: q ++ '/' :: r ∧ originEnd ≤ p.length) ↔
              topic = q ++ ['/'] ∨
                ∃ p, topic = p ++ ['/'] ∧ topic <+: q ∧ originEnd ≤ p.length := by
            constructor
            · rintro ⟨p, rfl, hbegins, hp⟩
              rcases (append_singleton_prefix_iff hr).mp hbegins with rfl | hbefore
              · exact Or.inl rfl
              · exact Or.inr ⟨p, rfl, hbefore, hp⟩
            · rintro (rfl | ⟨p, rfl, hbefore, hp⟩)
              · exact ⟨q, rfl, (append_singleton_prefix_iff hr).mpr (Or.inl rfl), hq⟩
              · exact ⟨p, rfl, (append_singleton_prefix_iff hr).mpr (Or.inr hbefore), hp⟩
          rw [hancestors, hsplit]
          split_ifs with horigin
          · rw [List.mem_singleton]
            refine (or_iff_left ?_).symm
            rintro ⟨p, rfl, hbefore, hp⟩
            have hle := hbefore.length_le
            rw [List.length_append, List.length_singleton] at hle
            omega
          · rw [List.mem_cons, ih q.length ?_ rfl]
            rw [← hlength, List.length_append, List.length_cons]
            omega

/-- A slash after a scheme in the topic is one after the first scheme of the text. -/
theorem exists_slash_of_scheme {p a b c text : Str} (h : p ++ ['/'] <+: text)
    (htext : text = a ++ ("://".toList ++ b))
    (hfirst : ∀ a' b', text = a' ++ ("://".toList ++ b') → a.length ≤ a'.length) {a' : Str}
    (htopic : p ++ ['/'] = a' ++ ("://".toList ++ c)) (hc : '/' ∈ c) :
    ∃ x y, b = x ++ ("/".toList ++ y) ∧ a.length + 3 + x.length ≤ p.length := by
  obtain ⟨z, hz⟩ := h
  obtain ⟨d, e, rfl⟩ := List.append_of_mem hc
  have hlength := congrArg List.length htopic
  simp only [List.length_append, List.length_cons, List.length_nil] at hlength
  rw [htopic, List.append_assoc, List.append_assoc] at hz
  have hle := hfirst a' _ hz.symm
  refine ⟨(a' ++ ("://".toList ++ d)).drop (a.length + 3), e ++ z, ?_, ?_⟩
  · have hdrop : text.drop (a.length + 3) = b := by
      rw [htext, ← List.append_assoc]
      exact List.drop_left' (List.length_append)
    rw [← hdrop, ← hz, ← List.drop_append_of_le_length]
    · simp only [List.append_assoc, List.cons_append]
      rfl
    · rw [List.length_append, List.length_append]
      change _ ≤ a'.length + (3 + d.length)
      omega
  · rw [List.length_drop, List.length_append, List.length_append]
    change _ = a'.length + (3 + (d.length + (e.length + 1))) at hlength
    change a.length + 3 + (a'.length + (3 + d.length) - (a.length + 3)) ≤ p.length
    omega

theorem le_findOriginEnd {text p : Str} (h : p ++ ['/'] <+: text) :
    findOriginEnd text ≤ p.length ↔ ReachesPath (p ++ ['/']) text := by
  have hlength := h.length_le
  rw [List.length_append, List.length_singleton] at hlength
  rw [findOriginEnd]
  cases hscheme : find "://" text with
  | none => exact iff_of_true (Nat.zero_le _) fun hin => absurd hin (find_eq_none.mp hscheme)
  | some schemeEnd =>
      obtain ⟨⟨a, b, htext, rfl⟩, hfirst⟩ := find_eq_some hscheme
      have hin : "://".toList <:+: text := ⟨a, b, by rw [htext, List.append_assoc]⟩
      have hdrop : text.drop (a.length + 3) = b := by
        rw [htext, ← List.append_assoc]
        exact List.drop_left' (List.length_append)
      simp only [hdrop]
      rw [ReachesPath, imp_iff_right hin]
      cases hslash : find "/" b with
      | none =>
          refine iff_of_false (by simp only; omega) ?_
          rintro ⟨a', c, htopic, hc⟩
          obtain ⟨x, y, hb, -⟩ := exists_slash_of_scheme h htext hfirst htopic hc
          exact find_eq_none.mp hslash ⟨x, y, by rw [hb, List.append_assoc]⟩
      | some pathSlashRel =>
          obtain ⟨⟨x, y, hb, rfl⟩, hnearest⟩ := find_eq_some hslash
          simp only
          constructor
          · intro hle
            have hroot : a ++ ("://".toList ++ (x ++ ['/'])) <+: text :=
              ⟨y, by rw [htext, hb]; simp⟩
            obtain ⟨w, hw⟩ := List.prefix_of_prefix_length_le hroot h (by
              simp only [List.length_append, List.length_singleton]
              change a.length + (3 + (x.length + 1)) ≤ _
              omega)
            refine ⟨a, x ++ ('/' :: w), by rw [← hw]; simp, ?_⟩
            exact List.mem_append_right _ List.mem_cons_self
          · rintro ⟨a', c, htopic, hc⟩
            obtain ⟨x', y', hb', hle⟩ := exists_slash_of_scheme h htext hfirst htopic hc
            have hnear := hnearest x' y' hb'
            omega

theorem mem_ancestorContainers {uri topic : Str} : topic ∈ ancestorContainers uri ↔
    ['/'] <:+ topic ∧ topic <+: trimEndMatches '/' uri ∧
      ReachesPath topic (trimEndMatches '/' uri) := by
  rw [ancestorContainers]
  split_ifs with htrimmed
  · refine iff_of_false List.not_mem_nil ?_
    rintro ⟨⟨p, rfl⟩, hbegins, -⟩
    rw [htrimmed, List.prefix_nil, List.append_eq_nil_iff] at hbegins
    cases hbegins.2
  · rw [mem_ancestorsFrom]
    constructor
    · rintro ⟨p, rfl, hbegins, hp⟩
      exact ⟨⟨p, rfl⟩, hbegins, (le_findOriginEnd hbegins).mp hp⟩
    · rintro ⟨⟨p, rfl⟩, hbegins, hreaches⟩
      exact ⟨p, rfl, hbegins, (le_findOriginEnd hbegins).mpr hreaches⟩

/-! ## What each fan-out delivers -/

/-- The subscription is among those that were delivered to. -/
def DeliversTo (out : List (Str × WebhookDelivery)) (sub : Subscription) : Prop :=
  ∃ result, (sub.id, result) ∈ out

section Webhooks

variable {S : Type*} {deliverOne : Str → ChangeNotification → S → WebhookDelivery × S}

theorem map_fst_deliverEach (note : ChangeNotification) (subs : List Subscription) (s : S) :
    (deliverEach deliverOne note subs s).1.map Prod.fst = subs.map Subscription.id := by
  induction subs generalizing s with
  | nil => rfl
  | cons sub subs ih =>
      rw [deliverEach, List.map_cons, List.map_cons, ih]

/-- The notification goes to the subscriptions whose topic matches. -/
theorem deliversTo_deliverAll_iff (note : ChangeNotification) (topicMatches : Str → Bool)
    {m : WebhookChannelManager S} {sub : Subscription} (h : sub ∈ m.subscriptions) :
    DeliversTo (deliverAll deliverOne note topicMatches m).1 sub ↔
      topicMatches sub.topic = true := by
  have hmap := @map_fst_deliverEach _ deliverOne note
    (m.subscriptions.filter fun s => topicMatches s.topic) m.channel
  have hids : DeliversTo (deliverAll deliverOne note topicMatches m).1 sub ↔
      sub.id ∈ (m.subscriptions.filter fun s => topicMatches s.topic).map Subscription.id := by
    rw [← hmap, List.mem_map]
    constructor
    · rintro ⟨result, hresult⟩
      exact ⟨_, hresult, rfl⟩
    · rintro ⟨⟨id, result⟩, hresult, rfl⟩
      exact ⟨result, hresult⟩
  rw [hids, List.mem_map]
  constructor
  · rintro ⟨other, hother, hid⟩
    obtain ⟨hmem, hmatches⟩ := List.mem_filter.mp hother
    rwa [← List.inj_on_of_nodup_map m.nodup hmem h hid]
  · intro hmatches
    exact ⟨sub, List.mem_filter.mpr ⟨h, hmatches⟩, rfl⟩

/-- The pump and `publish` deliver what begins with the topic. -/
theorem deliversTo_pumpEvent_iff (podBase : Str) (event : StorageEvent) (stamp : Stamp)
    {m : WebhookChannelManager S} {sub : Subscription} (h : sub ∈ m.subscriptions) :
    DeliversTo (pumpEvent deliverOne podBase m (event, stamp)).1 sub ↔
      sub.topic <+: event.path := by
  rw [pumpEvent, deliversTo_deliverAll_iff _ _ h]
  exact List.isPrefixOf_iff_prefix

/-- In a run of the pump each event goes to the subscriptions that are left then. -/
theorem pumpFromStorage_append_cons (podBase : Str) (m : WebhookChannelManager S)
    (pre post : List (StorageEvent × Stamp)) (event : StorageEvent × Stamp) :
    pumpFromStorage deliverOne podBase m (pre ++ event :: post) =
      pumpFromStorage deliverOne podBase m pre ++
        (pumpEvent deliverOne podBase
            (Lockstep.final (pumpEvent deliverOne podBase) m pre) event).1 ::
          pumpFromStorage deliverOne podBase
            (Lockstep.final (pumpEvent deliverOne podBase) m (pre ++ [event])) post := by
  rw [pumpFromStorage, Lockstep.run_append, Lockstep.run]
  have hfinal : Lockstep.final (pumpEvent deliverOne podBase) m (pre ++ [event]) =
      (pumpEvent deliverOne podBase
        (Lockstep.final (pumpEvent deliverOne podBase) m pre) event).2 :=
    List.foldl_append
  rw [hfinal]
  rfl

theorem deliversTo_publish_iff (topic : Str) (note : ChangeNotification)
    {m : WebhookChannelManager S} {sub : Subscription} (h : sub ∈ m.subscriptions) :
    DeliversTo (publish deliverOne topic note m).1 sub ↔ sub.topic <+: topic := by
  rw [publish, deliversTo_deliverAll_iff _ _ h, Bool.or_eq_true, beq_iff_eq, startsWith,
    List.isPrefixOf_iff_prefix]
  refine or_iff_left_of_imp ?_
  intro heq
  rw [heq]

end Webhooks

/-- The legacy channel delivers what the subscription covers. -/
theorem matchesSubscription_iff (topic uri : Str) :
    matchesSubscription [topic] uri = true ↔ Covers topic uri := by
  rw [matchesSubscription, List.any_cons, List.any_nil, Bool.or_false, Bool.or_eq_true,
    Bool.and_eq_true, beq_iff_eq, startsWith, endsWith, List.isPrefixOf_iff_prefix,
    List.isSuffixOf_iff_suffix, Covers, ProperAncestor]
  by_cases h : topic = uri
  · simp [h]
  · simp [h]

/-- A change gives one frame at most, and none without a subscription to it or to
a container above it. -/
theorem onResourceChange_ne_nil_iff (canRead : Option Str → Str → Bool) (webid : Option Str)
    (topic uri : Str) :
    LegacyWebSocketSession.onResourceChange canRead ⟨[topic], webid⟩ uri ≠ [] ↔
      topic = uri ∨ topic ∈ ancestorContainers uri := by
  have hcandidates : ((if [topic].contains uri then [uri] else []) ++
      (ancestorContainers uri).filter [topic].contains) = [] ↔
        ¬ (topic = uri ∨ topic ∈ ancestorContainers uri) := by
    rw [List.append_eq_nil_iff, List.filter_eq_nil_iff, not_or, eq_comm (a := topic)]
    refine and_congr ?_ ?_
    · by_cases h : uri = topic
      · simp [h]
      · simp [h]
    · simp only [List.contains_iff_mem, List.mem_singleton]
      constructor
      · intro h hmem
        exact h topic hmem rfl
      · rintro h t hmem rfl
        exact h hmem
  rw [LegacyWebSocketSession.onResourceChange, ← not_iff_not, not_not, ← hcandidates]
  simp only
  generalize (if [topic].contains uri then [uri] else []) ++
    (ancestorContainers uri).filter [topic].contains = candidates
  cases candidates with
  | nil => exact iff_of_true rfl rfl
  | cons candidate candidates =>
      rw [List.isEmpty_cons, if_neg Bool.false_ne_true]
      refine iff_of_false ?_ (List.cons_ne_nil _ _)
      split
      · exact List.cons_ne_nil _ _
      · exact List.cons_ne_nil _ _

/-! ## Agreement -/

section Agreement

variable {S : Type*} (deliverOne : Str → ChangeNotification → S → WebhookDelivery × S)
  (podBase : Str)

/-- Every fan-out delivers the change to the topic of the subscription exactly
when the topic covers it. -/
def FanOutsAgree (m : WebhookChannelManager S) (sub : Subscription) (event : StorageEvent)
    (stamp : Stamp) : Prop :=
  (DeliversTo (pumpEvent deliverOne podBase m (event, stamp)).1 sub ↔
    Covers sub.topic event.path) ∧
  (∀ note, DeliversTo (publish deliverOne event.path note m).1 sub ↔
    Covers sub.topic event.path) ∧
  (matchesSubscription [sub.topic] event.path = true ↔ Covers sub.topic event.path) ∧
  ∀ canRead webid,
    LegacyWebSocketSession.onResourceChange canRead ⟨[sub.topic], webid⟩ event.path ≠ [] ↔
      Covers sub.topic event.path

/-- A topic that the resource goes on from is a container, ends before the slashes
at the end of the resource, and has left the scheme and the authority behind. -/
def ClearOf (topic uri : Str) : Prop :=
  topic <+: uri → topic ≠ uri → ['/'] <:+ topic ∧ topic <+: trimEndMatches '/' uri ∧
    ReachesPath topic (trimEndMatches '/' uri)

/-- The fan-outs agree exactly where the topic is clear of the resource. -/
theorem fanOutsAgree_iff {m : WebhookChannelManager S} {sub : Subscription}
    (h : sub ∈ m.subscriptions) (event : StorageEvent) (stamp : Stamp) :
    FanOutsAgree deliverOne podBase m sub event stamp ↔ ClearOf sub.topic event.path := by
  have htrim : trimEndMatches '/' event.path <+: event.path := List.rdropWhile_prefix _ _
  rw [FanOutsAgree, deliversTo_pumpEvent_iff podBase event stamp h,
    and_iff_right (matchesSubscription_iff sub.topic event.path)]
  simp only [deliversTo_publish_iff _ _ h, onResourceChange_ne_nil_iff, mem_ancestorContainers]
  constructor
  · rintro ⟨hpump, -, hsession⟩ hbegins hne
    rcases hpump.mp hbegins with heq | hproper
    · exact absurd heq hne
    · exact ((hsession (fun _ _ => true) none).mpr (Or.inr hproper)).resolve_left hne
  · intro hclear
    have hcovers : sub.topic <+: event.path ↔ Covers sub.topic event.path := by
      constructor
      · intro hbegins
        by_cases heq : sub.topic = event.path
        · exact Or.inl heq
        · exact Or.inr ⟨(hclear hbegins heq).1, hbegins, heq⟩
      · rintro (heq | hproper)
        · rw [heq]
        · exact hproper.2.1
    refine ⟨hcovers, fun _ => hcovers, fun _ _ => ?_⟩
    constructor
    · rintro (heq | ⟨hcontainer, hbegins, -⟩)
      · exact Or.inl heq
      · exact hcovers.mp (hbegins.trans htrim)
    · rintro (heq | hproper)
      · exact Or.inl heq
      · exact Or.inr (hclear hproper.2.1 hproper.2.2)

end Agreement

/-! ## A name that begins another one -/

/-- A webhook that is told about `/foo`. -/
def fooSubscription : Subscription := ⟨"1", "/foo", .webhookChannel2023, "https://hook.example/"⟩

def fooManager : WebhookChannelManager Unit := ⟨[fooSubscription], List.nodup_singleton _, ()⟩

def answerOk : Str → ChangeNotification → Unit → WebhookDelivery × Unit :=
  fun _ _ _ => (.delivered 200, ())

theorem fanOutsAgree_foo : FanOutsAgree answerOk "https://pod.example" fooManager fooSubscription
    (.updated "/foo") ⟨"0", "now"⟩ :=
  (fanOutsAgree_iff answerOk "https://pod.example" List.mem_cons_self (.updated "/foo")
    ⟨"0", "now"⟩).mpr fun _ hne => absurd rfl hne

/-- A change of `/foobar` is delivered to the topic `/foo`. -/
theorem foo_receives_foobar :
    ¬ ∀ (m : WebhookChannelManager Unit) (sub : Subscription), sub ∈ m.subscriptions →
      ∀ (event : StorageEvent) (stamp : Stamp),
        FanOutsAgree answerOk "https://pod.example" m sub event stamp := by
  intro h
  have hpump := (h fooManager fooSubscription List.mem_cons_self (.updated "/foobar")
    ⟨"0", "now"⟩).1
  rw [deliversTo_pumpEvent_iff _ _ _ List.mem_cons_self] at hpump
  rcases hpump.mp (by decide) with heq | hproper
  · exact absurd heq (by decide)
  · exact absurd hproper.1 (by decide)

end Notifications

end SolidPod
