import SolidPod.Notifications.Signing

/-!
# What a webhook signature binds

The verifier writes the signed text from what it read, so a signature binds the method,
the target, the headers, the body, and of the parameters the time and the key id. What
the parser passes over is not in the text: two requests with one signature agree on all
their parameters exactly when they agree on those that the text does not have.
-/

namespace SolidPod

open Foundation

namespace Notifications

open Str

structure WebhookRequest where
  method : Str
  targetUri : Str
  headers : List (Str × Str)
  body : Bytes

/-- The parameters of a `Signature-Input`, as they are written. -/
def parameters (raw : Str) : List (Str × Str) :=
  ((((splitSignatureInput raw).getD []).map trim).filter fun part => !part.isEmpty).filterMap
    (splitOnce '=')

def WebhookRequest.sigInput (req : WebhookRequest) : Str :=
  (findHeader req.headers "signature-input").getD []

/-- The parameters that the signed text has. -/
def boundParameters (created : ℕ) (keyid : Str) : List (Str × Str) :=
  [("created", decimal created), ("keyid", quoted keyid), ("alg", quoted "ed25519")]

/-- The parameters of a `Signature-Input`, without the values that the signed text has. -/
def unboundParameters (raw : Str) : List (Str × Option Str) :=
  match parseSignatureInput raw with
  | .error _ => []
  | .ok (created, keyid) =>
    (parameters raw).map fun p =>
      (p.1, if p ∈ boundParameters created keyid then none else some p.2)

/-- What a signature should be of. -/
structure Agree (lib : SigningLibrary) (x y : WebhookRequest) : Prop where
  method : toUppercase lib.uppercase x.method = toUppercase lib.uppercase y.method
  targetUri : x.targetUri = y.targetUri
  contentType : findHeader x.headers "content-type" = findHeader y.headers "content-type"
  date : findHeader x.headers "date" = findHeader y.headers "date"
  notificationId : findHeader x.headers "x-solid-notification-id" =
    findHeader y.headers "x-solid-notification-id"
  body : x.body = y.body
  parameters : parameters x.sigInput = parameters y.sigInput

/-- The request is accepted with these bytes as its signature. -/
def AcceptedWith (lib : SigningLibrary) (pubkey : lib.VerifyingKey) (keyid : Str)
    (req : WebhookRequest) (signature : Bytes) : Prop :=
  verifySignedRequest lib pubkey keyid req.headers req.method req.targetUri req.body = .ok () ∧
    ((findHeader req.headers "signature").map (parseSignatureHeader lib)) = some (.ok signature)

/-! ## The signed text has one reading -/

theorem eq_of_append_cons_left {c : Char} {p q a b : Str} (hp : c ∉ p) (hq : c ∉ q)
    (h : p ++ c :: a = q ++ c :: b) : p = q ∧ a = b := by
  have hsplit := splitOnce_append hp a
  rw [h, splitOnce_append hq] at hsplit
  cases hsplit
  exact ⟨rfl, rfl⟩

theorem eq_of_append_cons_right {c : Char} {p q a b : Str} (ha : c ∉ a) (hb : c ∉ b)
    (h : p ++ c :: a = q ++ c :: b) : p = q ∧ a = b := by
  have hreverse := congrArg List.reverse h
  rw [List.reverse_append, List.reverse_append, List.reverse_cons, List.reverse_cons,
    List.append_assoc, List.append_assoc] at hreverse
  obtain ⟨hab, hpq⟩ := eq_of_append_cons_left (fun hc => ha (List.mem_reverse.mp hc))
    (fun hc => hb (List.mem_reverse.mp hc)) hreverse
  exact ⟨List.reverse_injective hpq, List.reverse_injective hab⟩

theorem decimal_injective : Function.Injective decimal := by
  intro n m h
  have hn : Nat.ofDigitChars 10 (decimal n) 0 = n := Nat.ofDigitChars_ten_toDigits
  rw [h] at hn
  exact hn.symm.trans Nat.ofDigitChars_ten_toDigits

theorem signatureParamsValue_inj {created created' : ℕ} {keyid keyid' : Str}
    (h : signatureParamsValue created keyid = signatureParamsValue created' keyid') :
    created = created' ∧ keyid = keyid' := by
  rw [signatureParamsValue_eq, signatureParamsValue_eq] at h
  have hparams := (List.cons.inj (List.append_cancel_left h)).2
  rw [List.append_assoc, List.append_assoc] at hparams
  obtain ⟨hcreated, hkeyid⟩ := eq_of_append_cons_left (notMem_toDigits (by decide) created)
    (notMem_toDigits (by decide) created') (List.append_cancel_left hparams)
  refine ⟨decimal_injective hcreated, ?_⟩
  simp only [List.append_assoc] at hkeyid
  have hquoted := List.append_cancel_right (List.append_cancel_left hkeyid)
  exact List.append_cancel_right (List.cons.inj hquoted).2

/-- The signed text, its last five lines apart. -/
theorem buildSignatureBase_eq (table : UppercaseTable)
    (method targetUri contentType contentDigest date notificationId : Str) (created : ℕ)
    (keyid : Str) :
    buildSignatureBase table method targetUri contentType contentDigest date notificationId created
      keyid = ("\"@method\": ".toList ++ toUppercase table method ++
        '\n' :: ("\"@target-uri\": ".toList ++ targetUri)) ++
        '\n' :: ("\"content-type\": ".toList ++ contentType) ++
        '\n' :: ("\"content-digest\": ".toList ++ contentDigest) ++
        '\n' :: ("\"date\": ".toList ++ date) ++
        '\n' :: ("\"x-solid-notification-id\": ".toList ++ notificationId) ++
        '\n' :: ("\"@signature-params\": ".toList ++ signatureParamsValue created keyid) := by
  have hnewline : ∀ s : Str, "\n".toList ++ s = '\n' :: s := fun s => rfl
  unfold buildSignatureBase
  simp only [List.append_assoc, List.cons_append, hnewline]

theorem notMem_toUppercase (table : UppercaseTable) (s : Str) : 't' ∉ toUppercase table s := by
  intro hmem
  obtain ⟨c, -, hc⟩ := List.mem_flatMap.mp hmem
  exact absurd (table.notLower c 't' hc) (by decide)

/-- The method ends at the first lower case letter. -/
theorem methodLine_inj {table : UppercaseTable} {method method' targetUri targetUri' : Str}
    (h : "\"@method\": ".toList ++ toUppercase table method ++
        '\n' :: ("\"@target-uri\": ".toList ++ targetUri) =
      "\"@method\": ".toList ++ toUppercase table method' ++
        '\n' :: ("\"@target-uri\": ".toList ++ targetUri')) :
    toUppercase table method = toUppercase table method' ∧ targetUri = targetUri' := by
  have hline : ∀ m u : Str, "\"@method\": ".toList ++ m ++
      '\n' :: ("\"@target-uri\": ".toList ++ u) =
        "\"@method\": ".toList ++
            ((m ++ ['\n', '"', '@']) ++ 't' :: ("arget-uri\": ".toList ++ u)) := by
    intro m u
    simp
  rw [hline, hline] at h
  have hnot : ∀ m, 't' ∉ toUppercase table m ++ ['\n', '"', '@'] := by
    intro m
    rw [List.mem_append, not_or]
    exact ⟨notMem_toUppercase table m, by decide⟩
  obtain ⟨hmethod, htarget⟩ :=
    eq_of_append_cons_left (hnot method) (hnot method') (List.append_cancel_left h)
  exact ⟨List.append_cancel_right hmethod, List.append_cancel_left htarget⟩

theorem newline_notMem_signatureParamsValue {created : ℕ} {keyid : Str} (h : '\n' ∉ keyid) :
    '\n' ∉ signatureParamsValue created keyid := by
  have hcreated : '\n' ∉ decimal created := notMem_toDigits (by decide) created
  have hlist : '\n' ∉ componentList := by decide
  have hkeyid : '\n' ∉ quoted keyid := by simp [quoted, h]
  have halg : '\n' ∉ "alg=".toList ++ quoted "ed25519" := by decide
  rw [signatureParamsValue_eq]
  simp only [List.mem_append, List.mem_cons, List.not_mem_nil, not_or] at halg ⊢
  exact ⟨hlist, not_false, by decide, ⟨by decide, hcreated⟩, by decide, ⟨by decide, hkeyid⟩,
    by decide, halg⟩

section Lines

variable {table : UppercaseTable}
  {method targetUri contentType contentDigest date notificationId keyid : Str} {created : ℕ}
  {method' targetUri' contentType' contentDigest' date' notificationId' keyid' : Str} {created' : ℕ}

/-- Two signed texts are the same only if all that went into them is. -/
theorem buildSignatureBase_inj
    (h : buildSignatureBase table method targetUri contentType contentDigest date notificationId
        created keyid =
      buildSignatureBase table method' targetUri' contentType' contentDigest' date' notificationId'
        created' keyid')
    (hvalues : ∀ v ∈ [contentType, contentDigest, date, notificationId, keyid,
      contentType', contentDigest', date', notificationId', keyid'], '\n' ∉ v) :
    toUppercase table method = toUppercase table method' ∧ targetUri = targetUri' ∧
      contentType = contentType' ∧ contentDigest = contentDigest' ∧ date = date' ∧
      notificationId = notificationId' ∧ created = created' ∧ keyid = keyid' := by
  have hline : ∀ (label : Str) {v : Str}, '\n' ∉ label → '\n' ∉ v → '\n' ∉ label ++ v := by
    intro label v hlabel hv
    rw [List.mem_append, not_or]
    exact ⟨hlabel, hv⟩
  simp only [List.forall_mem_cons] at hvalues
  obtain ⟨h₁, h₂, h₃, h₄, h₅, h₁', h₂', h₃', h₄', h₅', -⟩ := hvalues
  rw [buildSignatureBase_eq, buildSignatureBase_eq] at h
  obtain ⟨h, hparams⟩ := eq_of_append_cons_right
    (hline _ (by decide) (newline_notMem_signatureParamsValue h₅))
    (hline _ (by decide) (newline_notMem_signatureParamsValue h₅')) h
  obtain ⟨h, hid⟩ := eq_of_append_cons_right (hline _ (by decide) h₄) (hline _ (by decide) h₄') h
  obtain ⟨h, hdate⟩ := eq_of_append_cons_right (hline _ (by decide) h₃) (hline _ (by decide) h₃') h
  obtain ⟨h, hdigest⟩ :=
    eq_of_append_cons_right (hline _ (by decide) h₂) (hline _ (by decide) h₂') h
  obtain ⟨h, htype⟩ := eq_of_append_cons_right (hline _ (by decide) h₁) (hline _ (by decide) h₁') h
  obtain ⟨hmethod, htarget⟩ := methodLine_inj h
  obtain ⟨hcreated, hkeyid⟩ := signatureParamsValue_inj (List.append_cancel_left hparams)
  exact ⟨hmethod, htarget, List.append_cancel_left htype, List.append_cancel_left hdigest,
    List.append_cancel_left hdate, List.append_cancel_left hid, hcreated, hkeyid⟩

end Lines

/-! ## The key id is part of its header -/

theorem mem_of_mem_splitOn {sep c : Char} {s part : Str} (hpart : part ∈ s.splitOn sep)
    (hc : c ∈ part) : c ∈ s := by
  have hjoin : ∀ parts : List Str, part ∈ parts → c ∈ [sep].intercalate parts := by
    intro parts hmem
    cases parts with
    | nil => cases hmem
    | cons p parts =>
        change c ∈ join [sep] (p :: parts)
        rw [join_cons, List.mem_append, List.mem_flatMap]
        rcases List.mem_cons.mp hmem with rfl | hmem
        · exact Or.inl hc
        · exact Or.inr ⟨part, hmem, List.mem_append_right _ hc⟩
  have hwhole := hjoin _ hpart
  rwa [List.intercalate_splitOn] at hwhole

theorem eq_of_unquote {v s : Str} (h : unquote v = some s) : v = quoted s := by
  obtain ⟨t, ht, hs⟩ := Option.bind_eq_some_iff.mp h
  rw [stripSuffix, Option.map_eq_some_iff] at hs
  obtain ⟨u, hu, rfl⟩ := hs
  have hreverse := congrArg List.reverse (stripPrefix_eq_some.mp hu)
  rw [List.reverse_reverse, List.reverse_append] at hreverse
  rw [stripPrefix_eq_some.mp ht, hreverse]
  rfl

/-- A parameter leaves the key id as it was, or sets it to a part of its value. -/
theorem keyid_assignParam {st st' : Option ℕ × Option Str} {param : Str × Str}
    (h : assignParam st param = .ok st') :
    st'.2 = st.2 ∨ ∃ keyid, st'.2 = some keyid ∧ param.2 = quoted keyid := by
  obtain ⟨k, v⟩ := param
  rw [assignParam] at h
  split_ifs at h
  · split at h
    · cases h
      exact Or.inl rfl
    · cases h
  · split at h
    · rename_i keyid hkeyid
      cases h
      exact Or.inr ⟨keyid, rfl, eq_of_unquote hkeyid⟩
    · cases h
  · split at h
    · split_ifs at h
      cases h
      exact Or.inl rfl
    · cases h
  · cases h
    exact Or.inl rfl

theorem keyid_readParam {st st' : Option ℕ × Option Str} {part : Str}
    (h : readParam st part = .ok st') :
    st'.2 = st.2 ∨ ∃ keyid, st'.2 = some keyid ∧ ∀ c ∈ keyid, c ∈ part := by
  have htrim : ∀ c ∈ trim part, c ∈ part := fun c hc =>
    (List.dropWhile_suffix _).subset ((List.rdropWhile_prefix _ _).subset hc)
  rw [readParam] at h
  split_ifs at h
  · cases h
    exact Or.inl rfl
  · split at h
    · rename_i param hparam
      rcases keyid_assignParam h with hsame | ⟨keyid, hkeyid, hvalue⟩
      · exact Or.inl hsame
      · refine Or.inr ⟨keyid, hkeyid, ?_⟩
        intro c hc
        refine htrim c ?_
        rw [(eq_append_of_splitOnce hparam).1, hvalue]
        simp [quoted, hc]
    · cases h

theorem keyid_foldlM {s : Str} {parts : List Str} {st st' : Option ℕ × Option Str}
    (h : parts.foldlM readParam st = .ok st') (hparts : ∀ part ∈ parts, ∀ c ∈ part, c ∈ s)
    (hst : ∀ keyid, st.2 = some keyid → ∀ c ∈ keyid, c ∈ s) :
    ∀ keyid, st'.2 = some keyid → ∀ c ∈ keyid, c ∈ s := by
  induction parts generalizing st with
  | nil =>
      cases h
      exact hst
  | cons part parts ih =>
      rw [List.foldlM_cons] at h
      obtain ⟨mid, hmid, h⟩ := Fallible.bind_eq_ok_iff.mp h
      refine ih h (fun p hp => hparts p (List.mem_cons_of_mem _ hp)) ?_
      rcases keyid_readParam hmid with hsame | ⟨keyid, hkeyid, hpart⟩
      · rw [hsame]
        exact hst
      · intro keyid' hkeyid' c hc
        rw [hkeyid] at hkeyid'
        cases hkeyid'
        exact hparts part List.mem_cons_self c (hpart c hc)

theorem parseSignatureInput_eq_ok {raw keyid : Str} {created : ℕ}
    (h : parseSignatureInput raw = .ok (created, keyid)) :
    ∃ parts, splitSignatureInput raw = some parts ∧
      parts.foldlM readParam (none, none) = .ok (some created, some keyid) := by
  rw [parseSignatureInput] at h
  split at h
  · cases h
  · rename_i parts hparts
    refine ⟨parts, hparts, ?_⟩
    split at h
    · cases h
    · rename_i hfold
      cases h
      exact hfold
    · cases h

theorem mem_of_mem_splitSignatureInput {raw part : Str} {parts : List Str} {c : Char}
    (h : splitSignatureInput raw = some parts) (hpart : part ∈ parts) (hc : c ∈ part) :
    c ∈ raw := by
  obtain ⟨after, hafter, h⟩ := Option.bind_eq_some_iff.mp h
  obtain ⟨⟨list, params⟩, hlist, h⟩ := Option.bind_eq_some_iff.mp h
  obtain ⟨-, hparts⟩ := Option.ite_none_left_eq_some.mp h
  cases hparts
  have hmem := mem_of_mem_splitOn hpart hc
  rw [stripPrefix_eq_some.mp hafter, (eq_append_of_splitOnce hlist).1]
  simp [hmem]

theorem mem_of_mem_keyid {raw keyid : Str} {created : ℕ}
    (h : parseSignatureInput raw = .ok (created, keyid)) : ∀ c ∈ keyid, c ∈ raw := by
  obtain ⟨parts, hparts, hfold⟩ := parseSignatureInput_eq_ok h
  exact keyid_foldlM hfold (fun part hpart c hc => mem_of_mem_splitSignatureInput hparts hpart hc)
    (fun keyid h => by cases h) keyid rfl

/-! ## What two requests with one signature agree on -/

theorem boundParameters_unique {created : ℕ} {keyid k v w : Str}
    (hv : (k, v) ∈ boundParameters created keyid) (hw : (k, w) ∈ boundParameters created keyid) :
    v = w := by
  simp only [boundParameters, List.mem_cons, List.not_mem_nil, or_false, Prod.mk.injEq] at hv hw
  rcases hv with ⟨rfl, rfl⟩ | ⟨rfl, rfl⟩ | ⟨rfl, rfl⟩
  · rcases hw with ⟨-, rfl⟩ | ⟨h, -⟩ | ⟨h, -⟩
    · rfl
    · exact absurd h (by decide)
    · exact absurd h (by decide)
  · rcases hw with ⟨h, -⟩ | ⟨-, rfl⟩ | ⟨h, -⟩
    · exact absurd h (by decide)
    · rfl
    · exact absurd h (by decide)
  · rcases hw with ⟨h, -⟩ | ⟨h, -⟩ | ⟨-, rfl⟩
    · exact absurd h (by decide)
    · exact absurd h (by decide)
    · rfl

/-- Next to the values of the signed text, the rest of the parameters are all of them. -/
theorem unboundParameters_eq_iff {raw raw' keyid : Str} {created : ℕ}
    (h : parseSignatureInput raw = .ok (created, keyid))
    (h' : parseSignatureInput raw' = .ok (created, keyid)) :
    unboundParameters raw = unboundParameters raw' ↔ parameters raw = parameters raw' := by
  rw [unboundParameters, unboundParameters, h, h']
  refine List.map_inj_right ?_
  rintro ⟨k, v⟩ ⟨k', w⟩ heq
  obtain ⟨rfl, hvalue⟩ := Prod.mk.inj heq
  split_ifs at hvalue with hv hw hw
  · rw [boundParameters_unique hv hw]
  · cases hvalue
    rfl

variable {lib : SigningLibrary} {pubkey : lib.VerifyingKey} {x y : WebhookRequest}
  {keyid keyid' : Str} {signature : Bytes}

theorem exists_of_findHeader {headers : List (Str × Str)} {name v : Str}
    (h : findHeader headers name = some v) : ∃ h ∈ headers, h.2 = v := by
  obtain ⟨header, hheader, hv⟩ := Option.map_eq_some_iff.mp h
  exact ⟨header, List.mem_of_find?_eq_some hheader, hv⟩

/-- What an accepted request was read as, with its signature. -/
theorem AcceptedWith.exists_reading (h : AcceptedWith lib pubkey keyid x signature) :
    ∃ r, Accepted lib pubkey keyid x.headers x.method x.targetUri x.body r ∧
      r.signature.val = signature := by
  obtain ⟨hverified, hsignature⟩ := h
  obtain ⟨r, hr⟩ := verifySignedRequest_eq_ok_iff.mp hverified
  refine ⟨r, hr, ?_⟩
  rw [hr.sigValue, Option.map_some, hr.signature] at hsignature
  cases hsignature
  rfl

theorem Accepted.parse_sigInput {r : Reading}
    (h : Accepted lib pubkey keyid x.headers x.method x.targetUri x.body r) :
    parseSignatureInput x.sigInput = .ok (r.created, keyid) := by
  rw [WebhookRequest.sigInput, h.sigInput]
  exact h.params

/-- No line ends in what was read of headers without line ends. -/
theorem Accepted.newline_notMem {r : Reading}
    (h : Accepted lib pubkey keyid x.headers x.method x.targetUri x.body r)
    (hlines : ∀ h ∈ x.headers, '\n' ∉ h.2) :
    ∀ v ∈ [r.contentType, contentDigestHeader lib x.body, r.date, r.notificationId, keyid],
      '\n' ∉ v := by
  have hvalue : ∀ {name v : Str}, findHeader x.headers name = some v → '\n' ∉ v := by
    intro name v hv
    obtain ⟨header, hheader, rfl⟩ := exists_of_findHeader hv
    exact hlines header hheader
  have hkeyid : '\n' ∉ keyid := fun hmem =>
    hvalue h.sigInput (mem_of_mem_keyid h.params _ hmem)
  simp only [List.forall_mem_cons]
  exact ⟨hvalue h.contentType, hvalue h.contentDigest, hvalue h.date, hvalue h.notificationId,
    hkeyid, by simp⟩

/-- Two accepted requests with the same signature agree on everything exactly when their
parameters agree where the signed text does not have them. -/
theorem agree_iff (hx : AcceptedWith lib pubkey keyid x signature)
    (hy : AcceptedWith lib pubkey keyid' y signature)
    (hlinex : ∀ h ∈ x.headers, '\n' ∉ h.2) (hliney : ∀ h ∈ y.headers, '\n' ∉ h.2)
    (hunforgeable : ∀ m m' s, lib.verify pubkey m s = true → lib.verify pubkey m' s = true → m = m')
    (hcollision : lib.sha256 x.body = lib.sha256 y.body → x.body = y.body) :
    Agree lib x y ↔ unboundParameters x.sigInput = unboundParameters y.sigInput := by
  obtain ⟨r, hr, hsignature⟩ := hx.exists_reading
  obtain ⟨r', hr', hsignature'⟩ := hy.exists_reading
  have hsame : r.signature = r'.signature := Subtype.ext (hsignature.trans hsignature'.symm)
  have hverifies' := hr'.verifies
  rw [← hsame] at hverifies'
  have hbase := utf8_injective (hunforgeable _ _ _ hr.verifies hverifies')
  have hvalues := List.forall_mem_append.mpr ⟨hr.newline_notMem hlinex, hr'.newline_notMem hliney⟩
  obtain ⟨hmethod, htarget, htype, hdigest, hdate, hid, hcreated, rfl⟩ :=
    buildSignatureBase_inj hbase hvalues
  have hparse := hr.parse_sigInput
  rw [hcreated] at hparse
  have hbody : x.body = y.body := by
    refine hcollision (Base64.encode_injective ?_)
    exact List.append_cancel_left (List.append_cancel_right hdigest)
  rw [unboundParameters_eq_iff hparse hr'.parse_sigInput]
  constructor
  · exact fun hagree => hagree.parameters
  · intro hparameters
    refine ⟨hmethod, htarget, ?_, ?_, ?_, hbody, hparameters⟩
    · rw [hr.contentType, hr'.contentType, htype]
    · rw [hr.date, hr'.date, hdate]
    · rw [hr.notificationId, hr'.notificationId, hid]

/-! ## A parameter that is passed over -/

theorem splitSignatureInput_append_param {raw part : Str} {parts : List Str}
    (h : splitSignatureInput raw = some parts) (hpart : ';' ∉ part) :
    splitSignatureInput (raw ++ ';' :: part) = some (parts ++ [part]) := by
  obtain ⟨after, hafter, h⟩ := Option.bind_eq_some_iff.mp h
  obtain ⟨⟨list, params⟩, hlist, h⟩ := Option.bind_eq_some_iff.mp h
  obtain ⟨hcovered, hparts⟩ := Option.ite_none_left_eq_some.mp h
  rw [not_not] at hcovered
  cases hparts
  obtain ⟨hsplit, -⟩ := eq_append_of_splitOnce hlist
  have hraw : raw ++ ';' :: part = "sig1=" ++ (componentList ++ (params ++ ';' :: part)) := by
    rw [stripPrefix_eq_some.mp hafter, hsplit, ← hcovered]
    simp
  rw [hraw, splitSignatureInput_append, List.splitOn_append_cons_self,
    List.splitOn_eq_singleton hpart]

theorem readParam_nonce (st : Option ℕ × Option Str) : readParam st "nonce=1" = .ok st := rfl

theorem parseSignatureInput_append_nonce {raw keyid : Str} {created : ℕ}
    (h : parseSignatureInput raw = .ok (created, keyid)) :
    parseSignatureInput (raw ++ ';' :: "nonce=1".toList) = .ok (created, keyid) := by
  obtain ⟨parts, hparts, hfold⟩ := parseSignatureInput_eq_ok h
  rw [parseSignatureInput, splitSignatureInput_append_param hparts (by decide)]
  simp only [List.foldlM_append, hfold, bind, Except.bind, List.foldlM_cons, List.foldlM_nil,
    readParam_nonce, pure, Except.pure]

theorem parameters_append_nonce {raw keyid : Str} {created : ℕ}
    (h : parseSignatureInput raw = .ok (created, keyid)) :
    parameters (raw ++ ';' :: "nonce=1".toList) =
      parameters raw ++ [("nonce".toList, "1".toList)] := by
  obtain ⟨parts, hparts, -⟩ := parseSignatureInput_eq_ok h
  rw [parameters, parameters, splitSignatureInput_append_param hparts (by decide), hparts]
  simp only [Option.getD_some, List.map_append, List.filter_append, List.filterMap_append]
  rfl

/-- The request with one more parameter in its signature. -/
def WebhookRequest.withNonce (req : WebhookRequest) : WebhookRequest :=
  { req with headers :=
      ("signature-input".toList, req.sigInput ++ ';' :: "nonce=1".toList) :: req.headers }

theorem findHeader_withNonce (req : WebhookRequest) {name : Str}
    (h : toAsciiLowercase "signature-input" ≠ toAsciiLowercase name) :
    findHeader req.withNonce.headers name = findHeader req.headers name := by
  rw [findHeader, findHeader, WebhookRequest.withNonce, List.find?_cons_of_neg]
  simpa using h

/-- Every accepted request has a twin that is accepted with the same signature, and with
which it does not agree. -/
theorem AcceptedWith.withNonce (h : AcceptedWith lib pubkey keyid x signature) :
    AcceptedWith lib pubkey keyid x.withNonce signature ∧ ¬ Agree lib x x.withNonce := by
  obtain ⟨r, hr, -⟩ := h.exists_reading
  have hinput : x.withNonce.sigInput = x.sigInput ++ ';' :: "nonce=1".toList := rfl
  have hparse := hr.parse_sigInput
  constructor
  · constructor
    · rw [verifySignedRequest_eq_ok_iff]
      refine ⟨{ r with sigInput := x.withNonce.sigInput }, rfl, ?_, ?_, ?_, ?_, ?_, ?_,
        hr.signature, hr.verifies⟩
      · exact (findHeader_withNonce x (by decide)).trans hr.sigValue
      · exact (findHeader_withNonce x (by decide)).trans hr.contentType
      · exact (findHeader_withNonce x (by decide)).trans hr.contentDigest
      · exact (findHeader_withNonce x (by decide)).trans hr.date
      · exact (findHeader_withNonce x (by decide)).trans hr.notificationId
      · exact parseSignatureInput_append_nonce hparse
    · rw [findHeader_withNonce x (by decide)]
      exact h.2
  · intro hagree
    have hparams := hagree.parameters
    rw [hinput, parameters_append_nonce hparse, List.self_eq_append_right] at hparams
    cases hparams

/-- A key that has signed one message. -/
def oneMessageLib (message : Bytes) : SigningLibrary :=
  { paddedLib with verify := fun _ m _ => m == message }

theorem unforgeable_oneMessageLib (message : Bytes) (pubkey : (oneMessageLib message).VerifyingKey)
    (m m' : Bytes) (s : Ed25519Signature) (h : (oneMessageLib message).verify pubkey m s = true)
    (h' : (oneMessageLib message).verify pubkey m' s = true) : m = m' :=
  (eq_of_beq h).trans (eq_of_beq h').symm

def sampleBase : Str :=
  buildSignatureBase asciiTable "POST" "https://a/" "text/plain" (contentDigestHeader paddedLib [])
    "now" "urn:uuid:1" 1 "k"

def sampleLib : SigningLibrary := oneMessageLib (utf8 sampleBase)

def sampleRequest : WebhookRequest where
  method := "POST"
  targetUri := "https://a/"
  headers := [("content-type", "text/plain"),
    ("content-digest", contentDigestHeader paddedLib []), ("date", "now"),
    ("x-solid-notification-id", "urn:uuid:1"),
    ("signature-input", "sig1=" ++ signatureParamsValue (UInt64.toNat 1) "k"),
    ("signature", "sig1=:" ++ Base64.encode (List.replicate 64 0) ++ ":")]
  body := []

def samplePubkey : sampleLib.VerifyingKey := ()

theorem acceptedWith_sampleRequest :
    AcceptedWith sampleLib samplePubkey "k" sampleRequest (List.replicate 64 0) := by
  have hparse : parseSignatureInput ("sig1=" ++ signatureParamsValue (UInt64.toNat 1) "k") =
      .ok (1, "k".toList) := parseSignatureInput_signed 1 (by decide)
  constructor
  · rw [verifySignedRequest_eq_ok_iff]
    exact ⟨⟨_, _, "text/plain", "now", "urn:uuid:1", 1, List.replicate 64 0, List.length_replicate⟩,
      rfl, rfl, rfl, rfl, rfl, rfl, hparse, parseSignatureHeader_signed _,
      beq_self_eq_true (utf8 sampleBase)⟩
  · exact congrArg some (parseSignatureHeader_signed _)

theorem newline_notMem_sigInput : '\n' ∉ sampleRequest.sigInput := by
  change '\n' ∉ "sig1=" ++ signatureParamsValue (UInt64.toNat 1) "k"
  rw [List.mem_append, not_or]
  exact ⟨by decide, newline_notMem_signatureParamsValue (by decide)⟩

theorem newline_notMem_sampleRequest : ∀ h ∈ sampleRequest.headers, '\n' ∉ h.2 := by
  have hwrap : ∀ (p : Str) (b : Bytes), '\n' ∉ p → '\n' ∉ p ++ Base64.encode b ++ ":" := by
    intro p b hp
    rw [List.mem_append, List.mem_append, not_or, not_or]
    exact ⟨⟨hp, Base64.notMem_encode (by decide) (by decide) b⟩, by decide⟩
  rw [sampleRequest]
  simp only [List.forall_mem_cons]
  exact ⟨by decide, hwrap _ _ (by decide), by decide, by decide, newline_notMem_sigInput,
    hwrap _ _ (by decide), by simp⟩

theorem newline_notMem_withNonce : ∀ h ∈ sampleRequest.withNonce.headers, '\n' ∉ h.2 := by
  rw [WebhookRequest.withNonce, List.forall_mem_cons]
  refine ⟨?_, newline_notMem_sampleRequest⟩
  rw [List.mem_append, not_or]
  exact ⟨newline_notMem_sigInput, by decide⟩

theorem agree_iff_sampleRequest : Agree sampleLib sampleRequest sampleRequest.withNonce ↔
    unboundParameters sampleRequest.sigInput = unboundParameters sampleRequest.withNonce.sigInput :=
  agree_iff acceptedWith_sampleRequest acceptedWith_sampleRequest.withNonce.1
    newline_notMem_sampleRequest newline_notMem_withNonce
    (unforgeable_oneMessageLib (utf8 sampleBase) samplePubkey) fun _ => rfl

/-- One signature accepts a request with and without a nonce. -/
theorem not_agree_sampleRequest :
    AcceptedWith sampleLib samplePubkey "k" sampleRequest (List.replicate 64 0) ∧
      AcceptedWith sampleLib samplePubkey "k" sampleRequest.withNonce (List.replicate 64 0) ∧
      (∀ h ∈ sampleRequest.headers, '\n' ∉ h.2) ∧
      (∀ h ∈ sampleRequest.withNonce.headers, '\n' ∉ h.2) ∧
      (∀ m m' s, sampleLib.verify samplePubkey m s = true →
        sampleLib.verify samplePubkey m' s = true → m = m') ∧
      ¬ Agree sampleLib sampleRequest sampleRequest.withNonce :=
  ⟨acceptedWith_sampleRequest, acceptedWith_sampleRequest.withNonce.1,
    newline_notMem_sampleRequest, newline_notMem_withNonce,
    unforgeable_oneMessageLib (utf8 sampleBase) samplePubkey,
    acceptedWith_sampleRequest.withNonce.2⟩

end Notifications

end SolidPod
