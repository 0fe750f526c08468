import ClawEngine.Laws.SecretPaths
import ClawEngine.Secrets.GetSecrets

/-!
# What a provider shows of its token

The token leaves the provider in one place, the headers of the request. What comes back does not
depend on it, unless the header is refused: `requests` and `http.client` then raise an exception
that quotes the value, and `get_secrets` lets it out.
-/

set_option autoImplicit false

namespace ClawEngine.Secrets

open ClawEngine.Core ClawEngine.Context

/-! ## Header values -/

/-- A text that is sent as a header value: it does not start with a blank, has no line break, and
every character of it has a place in Latin-1. -/
structure IsHeaderValue (value : String) : Prop where
  start : ∀ c, value.toList.head? = some c → isSpace c = false
  chars : ∀ c ∈ value.toList, c ≠ '\r' ∧ c ≠ '\n' ∧ c.toNat ≤ 0xff

/-- Nothing refuses the text. -/
def isSent (value : String) : Bool := isCheckedValue value && isWritableValue value

theorem hasIllegalBreak_of_final (cs : List Char) : hasIllegalBreak (cs ++ ['\n']) = true := by
  induction cs with
  | nil => rfl
  | cons c cs ih =>
    rw [List.cons_append, hasIllegalBreak, ih, Bool.or_true]

theorem hasIllegalBreak_of_none {cs : List Char} (h : ∀ c ∈ cs, c ≠ '\r' ∧ c ≠ '\n') :
    hasIllegalBreak cs = false := by
  induction cs with
  | nil => rfl
  | cons c cs ih =>
    obtain ⟨hreturn, hbreak⟩ := h c List.mem_cons_self
    rw [hasIllegalBreak, ih fun c' hc' => h c' (List.mem_cons_of_mem _ hc'),
      decide_eq_false hreturn, decide_eq_false hbreak]
    rfl

/-- A checked text without a break at its end has none, and does not start with a blank. -/
theorem isCheckedValue_iff {value : String} (h : value.toList.getLast? ≠ some '\n') :
    isCheckedValue value = true ↔ (∀ c, value.toList.head? = some c → isSpace c = false) ∧
      ∀ c ∈ value.toList, c ≠ '\r' ∧ c ≠ '\n' := by
  rw [isCheckedValue, dropFinalBreak, if_neg h]
  cases value.toList with
  | nil => exact ⟨fun _ => ⟨nofun, nofun⟩, fun _ => rfl⟩
  | cons c cs =>
    simp only [Bool.and_eq_true, Bool.not_eq_true', List.all_eq_true, decide_eq_true_eq,
      List.head?_cons, Option.some.injEq, forall_eq']

/-- **What is sent as a header value.** -/
theorem isSent_iff (value : String) : isSent value = true ↔ IsHeaderValue value := by
  have hall : ∀ cs : List Char, (cs.all fun c => c.toNat ≤ 0xff) = true ↔
      ∀ c ∈ cs, c.toNat ≤ 0xff := by
    intro cs
    simp only [List.all_eq_true, decide_eq_true_eq]
  rw [isSent, isWritableValue, Bool.and_eq_true, Bool.and_eq_true, Bool.not_eq_true', hall]
  constructor
  · rintro ⟨hchecked, hlatin, hlegal⟩
    have hlast : value.toList.getLast? ≠ some '\n' := by
      intro hlast
      obtain ⟨cs, hcs⟩ := List.getLast?_eq_some_iff.mp hlast
      rw [hcs, hasIllegalBreak_of_final] at hlegal
      cases hlegal
    obtain ⟨hstart, hbreaks⟩ := (isCheckedValue_iff hlast).mp hchecked
    exact ⟨hstart, fun c hc => ⟨(hbreaks c hc).1, (hbreaks c hc).2, hlatin c hc⟩⟩
  · rintro ⟨hstart, hchars⟩
    have hbreaks : ∀ c ∈ value.toList, c ≠ '\r' ∧ c ≠ '\n' :=
      fun c hc => ⟨(hchars c hc).1, (hchars c hc).2.1⟩
    have hlast : value.toList.getLast? ≠ some '\n' :=
      fun hlast => (hbreaks '\n' (List.mem_of_getLast? hlast)).2 rfl
    exact ⟨(isCheckedValue_iff hlast).mpr ⟨hstart, hbreaks⟩, fun c hc => (hchars c hc).2.2,
      hasIllegalBreak_of_none hbreaks⟩

/-! ## The token in a call -/

/-- What two providers show in a call is the same: their texts, and the mapping that is returned or
the exception that is raised. -/
structure ShownAlike (lib : SecretsLib) (network : Network) (p p' : OpenBaoSecretProvider)
    (workspaceId : String) : Prop where
  repr : p.repr lib.toInterpreter = p'.repr lib.toInterpreter
  str : p.str lib.toInterpreter = p'.str lib.toInterpreter
  answer : p.getSecrets lib network workspaceId = p'.getSecrets lib network workspaceId

/-- The urls of the provider are refused, whatever the workspace. -/
def NoUrlAccepted (lib : SecretsLib) (p : OpenBaoSecretProvider) : Prop :=
  ∀ workspaceId path, p.requestPath lib.toOpenBaoLib workspaceId = .ok path →
    lib.requests.prepareUrl (p.endpoint ++ path) ≠ none

section Token

variable {lib : SecretsLib} {network : Network} {p : OpenBaoSecretProvider}
  {workspaceId path t t' : String}

/-- The provider with another token. -/
def withToken (p : OpenBaoSecretProvider) (token : String) : OpenBaoSecretProvider :=
  { p with token }

/-- The constructor looks at the token only to see that there is one. -/
theorem init_withToken {py : OpenBaoLib} {given p p' : OpenBaoSecretProvider}
    (h : OpenBaoSecretProvider.init py (withToken given t) = .ok p)
    (h' : OpenBaoSecretProvider.init py (withToken given t') = .ok p') :
    p = withToken p t ∧ p' = withToken p t' := by
  obtain ⟨_, -, h⟩ := except_bind_eq_ok.mp h
  obtain ⟨-, h⟩ := refuseIf_bind_eq_ok.mp h
  obtain ⟨_, -, h⟩ := except_bind_eq_ok.mp h
  obtain ⟨_, -, h⟩ := except_bind_eq_ok.mp h
  obtain ⟨_, -, h⟩ := except_bind_eq_ok.mp h
  obtain ⟨_, -, h⟩ := except_bind_eq_ok.mp h
  obtain ⟨_, -, h'⟩ := except_bind_eq_ok.mp h'
  obtain ⟨-, h'⟩ := refuseIf_bind_eq_ok.mp h'
  obtain ⟨_, -, h'⟩ := except_bind_eq_ok.mp h'
  obtain ⟨_, -, h'⟩ := except_bind_eq_ok.mp h'
  obtain ⟨_, -, h'⟩ := except_bind_eq_ok.mp h'
  obtain ⟨_, -, h'⟩ := except_bind_eq_ok.mp h'
  cases h
  cases h'
  exact ⟨rfl, rfl⟩

/-- The headers of a request. -/
def headersFor (token : String) : Dict String String :=
  ((∅ : Dict String String).set "X-Vault-Token" token).set "Accept" "application/json"

theorem refusedValue_headersFor {accepts : String → Bool} (token : String)
    (haccept : accepts "application/json" = true) :
    refusedValue accepts (headersFor token) = if accepts token then none else some token := by
  have hitems : (headersFor token).items.map Prod.snd = [token, "application/json"] := rfl
  rw [refusedValue, hitems, List.find?_cons, List.find?_singleton, haccept]
  cases accepts token with
  | true => rfl
  | false => rfl

/-- How an exchange ends. -/
def Exchange.outcome : Exchange → HttpOutcome
  | .early outcome => outcome
  | .full outcome => outcome

/-- A token that is sent leaves no trace in what comes back. -/
theorem requestsGet_of_sent {url : String} {timeout : PyFloat × PyFloat} (ht : isSent t = true)
    (hurl : lib.requests.prepareUrl url = none) :
    requestsGet lib.requests network ⟨url, headersFor t, timeout⟩ =
      (network url timeout).outcome := by
  obtain ⟨hchecked, hwritable⟩ := Bool.and_eq_true_iff.mp ht
  have hcheck : refusedValue isCheckedValue (headersFor t) = none := by
    rw [refusedValue_headersFor t (by decide), if_pos hchecked]
  have hwrite : refusedValue isWritableValue (headersFor t) = none := by
    rw [refusedValue_headersFor t (by decide), if_pos hwritable]
  simp only [requestsGet, hurl, hcheck, hwrite]
  cases network url timeout <;> rfl

/-- A token that is not sent is quoted, where the network is reached. -/
theorem requestsGet_of_refused {url : String} {timeout : PyFloat × PyFloat}
    {outcome : HttpOutcome} (ht : isSent t = false)
    (hurl : lib.requests.prepareUrl url = none) (hnetwork : network url timeout = .full outcome) :
    requestsGet lib.requests network ⟨url, headersFor t, timeout⟩ =
      .raised (lib.requests.refused t) := by
  have hcheck : refusedValue isCheckedValue (headersFor t) =
      if isCheckedValue t then none else some t := refusedValue_headersFor t (by decide)
  have hwrite : refusedValue isWritableValue (headersFor t) =
      if isWritableValue t then none else some t := refusedValue_headersFor t (by decide)
  simp only [requestsGet, hurl, hcheck, hwrite, hnetwork]
  rcases Bool.and_eq_false_iff.mp ht with hchecked | hwritable
  · rw [hchecked]
    rfl
  · rw [hwritable]
    cases isCheckedValue t <;> rfl

/-- A refused url ends the call before the headers are looked at. -/
theorem requestsGet_of_url {url : String} {timeout : PyFloat × PyFloat} {e : LibException}
    (hurl : lib.requests.prepareUrl url = some e) (headers : Dict String String) :
    requestsGet lib.requests network ⟨url, headers, timeout⟩ = .raised e := by
  simp only [requestsGet, hurl]

/-- Nothing but the request carries the token. -/
theorem readOutcome_withToken (outcome : HttpOutcome) :
    readOutcome lib (withToken p t) workspaceId outcome = readOutcome lib p workspaceId outcome := rfl

/-- A call on a valid path makes one request, and goes on from how it ends. -/
theorem getSecrets_withToken (hpath : p.requestPath lib.toOpenBaoLib workspaceId = .ok path) :
    (withToken p t).getSecrets lib network workspaceId =
      readOutcome lib p workspaceId (requestsGet lib.requests network
        ⟨p.endpoint ++ path, headersFor t, (p.timeoutConnect, p.timeoutRead)⟩) := by
  have hrequest : (withToken p t).request lib.toOpenBaoLib workspaceId =
      .ok ⟨p.endpoint ++ path, headersFor t, (p.timeoutConnect, p.timeoutRead)⟩ := by
    have hsame : (withToken p t).requestPath lib.toOpenBaoLib workspaceId = .ok path := hpath
    rw [OpenBaoSecretProvider.request, hsame]
    rfl
  rw [OpenBaoSecretProvider.getSecrets, hrequest]
  exact readOutcome_withToken _

/-- Without a path there is no request. -/
theorem getSecrets_of_error {e : OpenBaoError}
    (hpath : p.requestPath lib.toOpenBaoLib workspaceId = .error e) :
    (withToken p t).getSecrets lib network workspaceId = .error (.openBao e) := by
  have hrequest : (withToken p t).request lib.toOpenBaoLib workspaceId = .error e := by
    have hsame : (withToken p t).requestPath lib.toOpenBaoLib workspaceId = .error e := hpath
    rw [OpenBaoSecretProvider.request, hsame]
    rfl
  rw [OpenBaoSecretProvider.getSecrets, hrequest]

/-- A server that knows nothing, over a network that fails at nothing. -/
def absentServer : Network := fun _ _ => .full (.answered ⟨404, .ok .null⟩)

/-- Against the absent server, a token that is sent gives no secrets and one that is not is
quoted. -/
theorem getSecrets_absent (hpath : p.requestPath lib.toOpenBaoLib workspaceId = .ok path)
    (hurl : lib.requests.prepareUrl (p.endpoint ++ path) = none) :
    (withToken p t).getSecrets lib absentServer workspaceId =
      if isSent t then .ok ∅ else .error (.library (lib.requests.refused t)) := by
  rw [getSecrets_withToken hpath]
  cases ht : isSent t with
  | true =>
    rw [requestsGet_of_sent ht hurl]
    rfl
  | false =>
    rw [requestsGet_of_refused ht hurl rfl]
    rfl

/-- Answers that differ in the token alone. -/
theorem getSecrets_alike_iff (hquotes : lib.requests.refused t = lib.requests.refused t' → t = t') :
    (∀ network workspaceId, (withToken p t).getSecrets lib network workspaceId =
        (withToken p t').getSecrets lib network workspaceId) ↔
      t = t' ∨ (isSent t = true ∧ isSent t' = true) ∨ NoUrlAccepted lib p := by
  constructor
  · intro halike
    by_cases hurls : NoUrlAccepted lib p
    · exact .inr (.inr hurls)
    · unfold NoUrlAccepted at hurls
      push Not at hurls
      obtain ⟨workspaceId, path, hpath, hurl⟩ := hurls
      have hanswer := halike absentServer workspaceId
      rw [getSecrets_absent hpath hurl, getSecrets_absent hpath hurl] at hanswer
      cases ht : isSent t with
      | true =>
        cases ht' : isSent t' with
        | true => exact .inr (.inl ⟨rfl, rfl⟩)
        | false =>
          rw [ht, ht'] at hanswer
          cases hanswer
      | false =>
        cases ht' : isSent t' with
        | true =>
          rw [ht, ht'] at hanswer
          cases hanswer
        | false =>
          rw [ht, ht'] at hanswer
          exact .inl (hquotes (GetSecretsError.library.inj (Except.error.inj hanswer)))
  · rintro h network workspaceId
    cases hpath : p.requestPath lib.toOpenBaoLib workspaceId with
    | error e => rw [getSecrets_of_error hpath, getSecrets_of_error hpath]
    | ok path =>
      rw [getSecrets_withToken hpath, getSecrets_withToken hpath]
      cases hurl : lib.requests.prepareUrl (p.endpoint ++ path) with
      | some e => rw [requestsGet_of_url hurl, requestsGet_of_url hurl]
      | none =>
        rcases h with rfl | ⟨ht, ht'⟩ | hurls
        · rfl
        · rw [requestsGet_of_sent ht hurl, requestsGet_of_sent ht' hurl]
        · exact absurd hurl (hurls workspaceId path hpath)

end Token

/-- **Which tokens stay hidden.** For two tokens that the constructor accepts beside one
configuration, the provider shows the same in every call, over every behaviour of the network and
the server, exactly when the tokens are equal, or both are header values, or no url of the provider
is accepted in the first place. -/
theorem token_hidden_iff (lib : SecretsLib) (given : OpenBaoSecretProvider) (t t' : String)
    (p p' : OpenBaoSecretProvider)
    (hp : OpenBaoSecretProvider.init lib.toOpenBaoLib { given with token := t } = .ok p)
    (hp' : OpenBaoSecretProvider.init lib.toOpenBaoLib { given with token := t' } = .ok p')
    (hquotes : lib.requests.refused t = lib.requests.refused t' → t = t') :
    (∀ network workspaceId, ShownAlike lib network p p' workspaceId) ↔
      t = t' ∨ (IsHeaderValue t ∧ IsHeaderValue t') ∨ NoUrlAccepted lib p := by
  obtain ⟨hown, hother⟩ := init_withToken hp hp'
  have hanswers := getSecrets_alike_iff (p := p) hquotes
  rw [← hown, ← hother] at hanswers
  rw [← isSent_iff, ← isSent_iff, ← hanswers]
  constructor
  · exact fun halike network workspaceId => (halike network workspaceId).answer
  · intro hsame network workspaceId
    refine ⟨?_, ?_, hsame network workspaceId⟩
    · rw [hother]
      rfl
    · rw [hother]
      rfl

/-- What `requests` and `http.client` raise for a header value, by what is wrong with it. -/
def quoteValue (value : String) : LibException :=
  let raises (className text : String) : LibException := ⟨className, [text], text⟩
  if !isCheckedValue value then
    raises "InvalidHeader" ("Invalid leading whitespace, reserved character(s), or return " ++
      "character(s) in header value: " ++ reprStr asciiLib.toInterpreter value)
  else if !value.toList.all (fun c => c.toNat ≤ 0xff) then
    ⟨"UnicodeEncodeError", ["latin-1", value],
      "'latin-1' codec can't encode character: ordinal not in range(256)"⟩
  else raises "ValueError" ("Invalid header value b" ++ reprStr asciiLib.toInterpreter value)

/-- A library whose `requests` accepts every url. -/
def quotingLib : SecretsLib :=
  { asciiLib with
    json := { loads := fun _ => .ok .null, intOfStr := fun _ => .ok 0, repr := fun _ => "",
              str := fun _ => "" }
    requests := { prepareUrl := fun _ => none, refused := quoteValue }
    splitUrl := fun _ => .ok ⟨"https", some "bao", .ok none, "/v1/"⟩
    urlunparse := fun scheme netloc path => scheme ++ "://" ++ netloc ++ path }

/-- The default configuration with a token. -/
def providerFor (token : String) : OpenBaoSecretProvider := { endpoint := "https://bao", token }

/-- Two ordinary tokens stay hidden. -/
theorem token_hidden_ordinary :
    ∃ p p', OpenBaoSecretProvider.init quotingLib.toOpenBaoLib (providerFor "s.one") = .ok p ∧
      OpenBaoSecretProvider.init quotingLib.toOpenBaoLib (providerFor "s.two") = .ok p' ∧
      ∀ network workspaceId, ShownAlike quotingLib network p p' workspaceId := by
  refine ⟨_, _, rfl, rfl, ?_⟩
  refine (token_hidden_iff quotingLib (providerFor "") "s.one" "s.two" _ _ rfl rfl ?_).mpr ?_
  · exact fun hquoted => absurd hquoted (by decide +kernel)
  · exact .inr (.inl ⟨(isSent_iff _).mp (by decide), (isSent_iff _).mp (by decide)⟩)

/-- A token read with the line break of its file is accepted, refused as a header value, and quoted
in the exception that is let out. -/
theorem token_quoted :
    ∃ p p', OpenBaoSecretProvider.init quotingLib.toOpenBaoLib (providerFor "s.one\n") = .ok p ∧
      OpenBaoSecretProvider.init quotingLib.toOpenBaoLib (providerFor "s.two") = .ok p' ∧
      p.getSecrets quotingLib absentServer "w" =
        .error (.library ⟨"ValueError", ["Invalid header value b's.one\\n'"],
          "Invalid header value b's.one\\n'"⟩) ∧
      p'.getSecrets quotingLib absentServer "w" = .ok ∅ ∧
      ¬ ∀ network workspaceId, ShownAlike quotingLib network p p' workspaceId := by
  refine ⟨_, _, rfl, rfl, rfl, rfl, fun halike => ?_⟩
  have hanswer := (halike absentServer "w").answer
  cases hanswer

end ClawEngine.Secrets
