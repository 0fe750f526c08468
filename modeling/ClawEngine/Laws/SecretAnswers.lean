import ClawEngine.Laws.TokenSecrecy

/-!
# How the answers of a server are told apart

Every outcome of the request has its place: a mapping, or a stage of the provider's own error. The
code finds that place unless `requests` raises an exception it does not list, or the member at
`data.data` of a body is there and no object, or the text of the error cannot be made because the
url has no port that can be read.
-/

set_option autoImplicit false

namespace ClawEngine.Secrets

open ClawEngine.Core

/-! ## What an outcome is to end in -/

/-- The value at `data.data`. -/
def dataData (body : Json) : Option Json := (subscript body "data").bind (subscript · "data")

/-- The object at `data.data` of a response. -/
def HttpResponse.secretObject (r : HttpResponse) : Option (List (String × Json)) :=
  (r.json.toOption.bind dataData).bind Json.members?

/-- The stages an outcome may be reported with. -/
def HttpOutcome.HasStage : HttpOutcome → Stage → Prop
  | .timeout _, stage => stage = .timeout
  | .connectionError _, stage => stage = .network
  | .raised _, stage => stage = .timeout ∨ stage = .network ∨ stage = .backend
  | .answered r, stage =>
    if r.statusCode = 401 ∨ r.statusCode = 403 then stage = .auth
    else if r.statusCode = 200 then r.secretObject = none ∧ stage = .parse
    else r.statusCode ≠ 404 ∧ stage = .backend

/-- The mappings an outcome may be answered with: the empty one for a path that does not exist, and
otherwise the one made of the object at `data.data`, which is empty with that object alone. -/
def HttpOutcome.HasSecrets (outcome : HttpOutcome) (secrets : Dict String String) : Prop :=
  ∃ r, outcome = .answered r ∧ ((r.statusCode = 404 ∧ secrets = ∅) ∨ (r.statusCode = 200 ∧
    ∃ members, r.secretObject = some members ∧ (secrets = ∅ ↔ members = []) ∧
      ∀ key, key ∈ secrets.keys ↔ key ∈ members.map Prod.fst))

/-- A mapping that the outcome has, or the provider's own error with a stage that it has. -/
def HttpOutcome.Classified (outcome : HttpOutcome) :
    Except GetSecretsError (Dict String String) → Prop
  | .ok secrets => outcome.HasSecrets secrets
  | .error (.provider e) => outcome.HasStage e.stage
  | .error _ => False

/-! ## Where the code finds it -/

/-- The url of an error message can be made: the url of the request splits, into parts with a port
that can be read. -/
def HasReadablePort (lib : SecretsLib) (url : String) : Prop :=
  ∃ parts port, lib.splitUrl url = .ok parts ∧ parts.port = .ok port

/-- What the body of a response with status 200 is: not JSON, without a value at `data.data`, or
with an object there. -/
def IsReadBody : Except PyError Json → Prop
  | .error e => isParseFailure e = true
  | .ok body => ∀ raw, dataData body = some raw → raw.members? ≠ none

/-- A path that does not exist, or an object at `data.data`. -/
def HttpOutcome.IsFound : HttpOutcome → Prop
  | .answered r => r.statusCode = 404 ∨ (r.statusCode = 200 ∧ r.secretObject ≠ none)
  | _ => False

/-- The outcomes that the code tells apart. -/
structure HttpOutcome.IsTold (lib : SecretsLib) (url : String) (outcome : HttpOutcome) : Prop where
  listed : ∀ e, outcome ≠ .raised e
  body : ∀ r, outcome = .answered r → r.statusCode = 200 → IsReadBody r.json
  url : ¬ outcome.IsFound → HasReadablePort lib url

section Answers

variable {lib : SecretsLib} {p : OpenBaoSecretProvider} {workspaceId : String}
  {request : SecretRequest} {outcome : HttpOutcome}

/-! ## The url of an error message -/

/-- What a request was made of. -/
theorem request_eq_ok (h : p.request lib.toOpenBaoLib workspaceId = .ok request) :
    ∃ filled, formatTemplate lib.toOpenBaoLib p.pathTemplate workspaceId = .ok filled ∧
      request.url = p.endpoint ++ "/v1/" ++ p.mount ++ "/data/" ++ String.ofList filled := by
  obtain ⟨path, hpath, h⟩ := except_bind_eq_ok.mp h
  obtain ⟨-, filled, hfilled, rfl⟩ := requestPath_eq_ok.mp hpath
  cases h
  refine ⟨filled, hfilled, ?_⟩
  simp only [String.append_assoc]

/-- **The url of an error message** can be made exactly when the url of the request has a readable
port. -/
theorem safeUrlForError_isOk (h : p.request lib.toOpenBaoLib workspaceId = .ok request) :
    (∃ url, p.safeUrlForError lib workspaceId = .ok url) ↔ HasReadablePort lib request.url := by
  obtain ⟨filled, hfilled, hurl⟩ := request_eq_ok h
  constructor
  · rintro ⟨url, hmade⟩
    obtain ⟨path, hpath, hmade⟩ := except_bind_eq_ok.mp hmade
    obtain rfl := Except.ok.inj (hfilled.symm.trans hpath)
    obtain ⟨parts, hparts, hmade⟩ := except_bind_eq_ok.mp hmade
    obtain ⟨port, hport, -⟩ := except_bind_eq_ok.mp hmade
    rw [hurl]
    exact ⟨parts, port, except_mapError_eq_ok.mp hparts, except_mapError_eq_ok.mp hport⟩
  · rintro ⟨parts, port, hparts, hport⟩
    rw [hurl] at hparts
    refine ⟨lib.urlunparse parts.scheme (bracketHost (parts.hostname.getD "") ++ portPart port)
      parts.path, ?_⟩
    refine except_bind_eq_ok.mpr ⟨filled, hfilled, ?_⟩
    refine except_bind_eq_ok.mpr ⟨parts, except_mapError_eq_ok.mpr hparts, ?_⟩
    exact except_bind_eq_ok.mpr ⟨port, except_mapError_eq_ok.mpr hport, rfl⟩

/-- An error is raised as it is meant where its url can be made. -/
theorem raiseAt_classified (h : p.request lib.toOpenBaoLib workspaceId = .ok request)
    (message : String) (stage : Stage) (status : Option Int) :
    outcome.Classified (raiseAt lib p workspaceId message stage status) ↔
      HasReadablePort lib request.url ∧ outcome.HasStage stage := by
  rw [← safeUrlForError_isOk h, raiseAt]
  cases p.safeUrlForError lib workspaceId with
  | error e =>
    constructor
    · exact False.elim
    · rintro ⟨⟨url, hurl⟩, -⟩
      cases hurl
  | ok url => exact ⟨fun hstage => ⟨⟨url, rfl⟩, hstage⟩, fun hstage => hstage.2⟩

/-! ## The mapping -/

theorem mem_keys_foldl_set (f : Json → String) (members : List (String × Json))
    (d : Dict String String) (key : String) :
    key ∈ (members.foldl (fun d m => d.set m.1 (f m.2)) d).keys ↔
      key ∈ d.keys ∨ key ∈ members.map Prod.fst := by
  induction members generalizing d with
  | nil => simp only [List.foldl_nil, List.map_nil, List.not_mem_nil, or_false]
  | cons m members ih =>
    have hset : key ∈ (d.set m.1 (f m.2)).keys ↔ key ∈ d.keys ∨ key = m.1 := by
      rw [Dict.keys_set]
      split_ifs with hm
      · exact ⟨.inl, fun hkey => hkey.elim id fun heq => heq ▸ hm⟩
      · rw [List.mem_append, List.mem_singleton]
    rw [List.foldl_cons, ih, hset, List.map_cons, List.mem_cons, or_assoc]

/-- An object is answered with a mapping of its keys. -/
theorem coerceSecrets_ok (lib : SecretsLib) {raw : Json} {members : List (String × Json)}
    (hraw : raw.members? = some members) : ∃ secrets, coerceSecrets lib raw = .ok secrets ∧
      (∀ key, key ∈ secrets.keys ↔ key ∈ members.map Prod.fst) ∧ (secrets = ∅ ↔ members = []) := by
  have hkeys : ∀ key, key ∈ (members.foldl (fun d m => d.set m.1 (lib.json.str m.2))
      (∅ : Dict String String)).keys ↔ key ∈ members.map Prod.fst := by
    intro key
    rw [mem_keys_foldl_set]
    exact or_iff_right List.not_mem_nil
  refine ⟨_, by rw [coerceSecrets, hraw], hkeys, ?_, ?_⟩
  · intro hempty
    rw [← List.map_eq_nil_iff (f := Prod.fst)]
    refine List.eq_nil_iff_forall_not_mem.mpr fun key hkey => ?_
    have hmem := (hkeys key).mpr hkey
    rw [hempty] at hmem
    exact absurd hmem List.not_mem_nil
  · rintro rfl
    rfl

/-! ## The body -/

theorem secretObject_eq {status : Int} {body : Json} :
    (HttpResponse.mk status (.ok body)).secretObject = (dataData body).bind Json.members? := rfl

/-- The error for a body that is not one of KV v2. -/
def malformed (lib : SecretsLib) (p : OpenBaoSecretProvider) (workspaceId : String) :
    Except GetSecretsError (Dict String String) :=
  raiseAt lib p workspaceId
    "OpenBao response body malformed (missing data.data or invalid JSON) at " .parse (some 200)

theorem readBody_of_none {body : Json} (h : dataData body = none) :
    readBody lib p workspaceId (.ok body) = malformed lib p workspaceId := by
  have h' : (subscript body "data").bind (subscript · "data") = none := h
  simp only [readBody, h', malformed]

theorem readBody_of_some {body raw : Json} (h : dataData body = some raw) :
    readBody lib p workspaceId (.ok body) = coerceSecrets lib raw := by
  have h' : (subscript body "data").bind (subscript · "data") = some raw := h
  simp only [readBody, h']

theorem malformed_classified (h : p.request lib.toOpenBaoLib workspaceId = .ok request)
    {json : Except PyError Json} (hnone : (HttpResponse.mk 200 json).secretObject = none) :
    (HttpOutcome.answered ⟨200, json⟩).Classified (malformed lib p workspaceId) ↔
      HasReadablePort lib request.url := by
  rw [malformed, raiseAt_classified h]
  exact and_iff_left ⟨hnone, rfl⟩

/-- The body of a response with status 200. -/
theorem readBody_classified (h : p.request lib.toOpenBaoLib workspaceId = .ok request)
    (json : Except PyError Json) :
    (HttpOutcome.answered ⟨200, json⟩).Classified (readBody lib p workspaceId json) ↔
      IsReadBody json ∧
        ((HttpResponse.mk 200 json).secretObject = none → HasReadablePort lib request.url) := by
  cases json with
  | error e =>
    have hnone : (HttpResponse.mk 200 (.error e)).secretObject = none := rfl
    rw [hnone, eq_self, true_imp_iff, IsReadBody, readBody]
    cases he : isParseFailure e with
    | true =>
      rw [if_pos rfl, eq_self, true_and]
      exact malformed_classified h hnone
    | false => exact ⟨False.elim, fun hparse => absurd hparse.1 Bool.false_ne_true⟩
  | ok body =>
    cases hraw : dataData body with
    | none =>
      have hnone : (HttpResponse.mk 200 (.ok body)).secretObject = none := by
        rw [secretObject_eq, hraw]
        rfl
      rw [readBody_of_none hraw, malformed_classified h hnone]
      refine ⟨fun hport => ⟨fun raw hsome => ?_, fun _ => hport⟩, fun hport => hport.2 hnone⟩
      rw [hraw] at hsome
      cases hsome
    | some raw =>
      rw [readBody_of_some hraw, secretObject_eq, hraw, Option.bind_some]
      cases hmembers : raw.members? with
      | none =>
        rw [coerceSecrets, hmembers]
        exact ⟨False.elim, fun hobject => absurd hmembers (hobject.1 raw hraw)⟩
      | some members =>
        obtain ⟨secrets, hsecrets, hkeys, hempty⟩ := coerceSecrets_ok lib hmembers
        rw [hsecrets]
        constructor
        · refine fun _ => ⟨fun raw' hraw' => ?_, fun hnone => absurd hnone (Option.some_ne_none _)⟩
          obtain rfl := Option.some.inj (hraw.symm.trans hraw')
          rw [hmembers]
          exact Option.some_ne_none _
        · refine fun _ => ⟨_, rfl, .inr ⟨rfl, members, ?_, hempty, hkeys⟩⟩
          rw [secretObject_eq, hraw]
          exact hmembers

/-! ## One case for each kind of outcome -/

/-- Of an outcome that is listed and has nothing to be found, the url is all that matters. -/
theorem isTold_iff_of_unfound {url : String} (hlisted : ∀ e, outcome ≠ .raised e)
    (hbody : ∀ r, outcome = .answered r → r.statusCode ≠ 200) (hfound : ¬ outcome.IsFound) :
    outcome.IsTold lib url ↔ HasReadablePort lib url :=
  ⟨fun htold => htold.url hfound,
    fun hport => ⟨hlisted, fun r hr hstatus => absurd hstatus (hbody r hr), fun _ => hport⟩⟩

/-- An answer with another status than 200 and 404. -/
theorem raiseAt_told (h : p.request lib.toOpenBaoLib workspaceId = .ok request) {r : HttpResponse}
    {message : String} {stage : Stage} {status : Option Int} (hfound : r.statusCode ≠ 404)
    (hstatus : r.statusCode ≠ 200) (hstage : (HttpOutcome.answered r).HasStage stage) :
    (HttpOutcome.answered r).Classified (raiseAt lib p workspaceId message stage status) ↔
      (HttpOutcome.answered r).IsTold lib request.url := by
  rw [raiseAt_classified h, isTold_iff_of_unfound]
  · exact and_iff_left hstage
  · exact fun e he => HttpOutcome.noConfusion he
  · intro r' hr'
    obtain rfl := HttpOutcome.answered.inj hr'
    exact hstatus
  · rintro (hfound' | ⟨hstatus', -⟩)
    · exact hfound hfound'
    · exact hstatus hstatus'

theorem hasStage_backend {r : HttpResponse} (hauth : ¬ (r.statusCode = 401 ∨ r.statusCode = 403))
    (hstatus : r.statusCode ≠ 200) (hmissing : r.statusCode ≠ 404) :
    (HttpOutcome.answered r).HasStage .backend := by
  rw [HttpOutcome.HasStage, if_neg hauth, if_neg hstatus]
  exact ⟨hmissing, rfl⟩

/-- **What follows a response.** -/
theorem readResponse_classified (h : p.request lib.toOpenBaoLib workspaceId = .ok request)
    (r : HttpResponse) :
    (HttpOutcome.answered r).Classified (readResponse lib p workspaceId r) ↔
      (HttpOutcome.answered r).IsTold lib request.url := by
  have hlisted : ∀ e, HttpOutcome.answered r ≠ .raised e := fun e he => HttpOutcome.noConfusion he
  unfold readResponse
  dsimp only
  split_ifs with hmissing hauth hbackend hother
  · refine ⟨fun _ => ⟨hlisted, fun r' hr' hstatus => ?_, fun hfound => ?_⟩, fun _ => ?_⟩
    · obtain rfl := HttpOutcome.answered.inj hr'
      omega
    · exact absurd (.inl hmissing) hfound
    · exact ⟨r, rfl, .inl ⟨hmissing, rfl⟩⟩
  · refine raiseAt_told h hmissing (by omega) ?_
    exact (if_pos hauth).mpr rfl
  · exact raiseAt_told h hmissing (by omega) (hasStage_backend hauth (by omega) hmissing)
  · exact raiseAt_told h hmissing hother (hasStage_backend hauth hother hmissing)
  · obtain ⟨status, json⟩ := r
    obtain rfl : status = 200 := not_not.mp hother
    rw [readBody_classified h]
    constructor
    · rintro ⟨hbody, hport⟩
      refine ⟨hlisted, fun r' hr' _ => ?_, fun hfound => hport ?_⟩
      · obtain rfl := HttpOutcome.answered.inj hr'
        exact hbody
      · exact not_not.mp fun hobject => hfound (.inr ⟨rfl, hobject⟩)
    · intro htold
      refine ⟨htold.body _ rfl rfl, fun hnone => htold.url ?_⟩
      rintro (hmissing' | ⟨-, hobject⟩)
      · exact hmissing hmissing'
      · exact hobject hnone

/-- **What follows the request.** -/
theorem readOutcome_classified (h : p.request lib.toOpenBaoLib workspaceId = .ok request) :
    outcome.Classified (readOutcome lib p workspaceId outcome) ↔
      outcome.IsTold lib request.url := by
  cases outcome with
  | timeout e =>
    rw [readOutcome, raiseAt_classified h, isTold_iff_of_unfound (fun _ he => by cases he)
      (fun _ hr => by cases hr) id]
    exact and_iff_left rfl
  | connectionError e =>
    rw [readOutcome, raiseAt_classified h, isTold_iff_of_unfound (fun _ he => by cases he)
      (fun _ hr => by cases hr) id]
    exact and_iff_left rfl
  | raised e => exact ⟨False.elim, fun htold => htold.listed e rfl⟩
  | answered r => exact readResponse_classified h r

end Answers

/-- **Which outcomes are told apart.** For every request that `get_secrets` makes, and whatever
becomes of it, the call ends in the mapping or the stage of the outcome exactly when `requests`
raised nothing that is not listed, the value at `data.data` of a found body is an object where there
is one, and, where an error is to be reported, the url has a port that can be read. -/
theorem answers_classified_iff (lib : SecretsLib) (network : Network) (p : OpenBaoSecretProvider)
    (workspaceId : String) (request : SecretRequest)
    (h : p.request lib.toOpenBaoLib workspaceId = .ok request) :
    (requestsGet lib.requests network request).Classified (p.getSecrets lib network workspaceId) ↔
      (requestsGet lib.requests network request).IsTold lib request.url := by
  rw [OpenBaoSecretProvider.getSecrets, h]
  exact readOutcome_classified h

/-- A server that answers every request with one response. -/
def answering (status : Int) (json : Except PyError Json) : Network :=
  fun _ _ => .full (.answered ⟨status, json⟩)

/-- A body with a value at `data.data`. -/
def bodyOf (raw : Json) : Except PyError Json := .ok (.obj [("data", .obj [("data", raw)])])

/-- The request of the default provider for the workspace `w`. -/
def defaultRequest : SecretRequest where
  url := "https://bao/v1/secret/data/claw/workspaces/w"
  headers := headersFor "s.one"
  timeout := (.finite 5, .finite 30)

/-- An object with one secret is told. -/
theorem answers_classified_object :
    (requestsGet quotingLib.requests (answering 200 (bodyOf (.obj [("key", .str "value")])))
      defaultRequest).Classified
      ((providerFor "s.one").getSecrets quotingLib
        (answering 200 (bodyOf (.obj [("key", .str "value")]))) "w") := by
  refine (answers_classified_iff quotingLib _ (providerFor "s.one") "w" defaultRequest rfl).mpr ?_
  refine ⟨fun e he => HttpOutcome.noConfusion he, fun r hr _ => ?_, fun hfound => ?_⟩
  · obtain rfl := HttpOutcome.answered.inj hr
    rintro raw hraw
    obtain rfl := Option.some.inj hraw
    exact Option.some_ne_none _
  · exact absurd (.inr ⟨rfl, Option.some_ne_none _⟩) hfound

/-- A list at `data.data` is let out as an `AttributeError`, and an exception that is not listed,
such as one for too many redirects, as itself. -/
theorem unlisted_outcomes_escape :
    ∃ p, OpenBaoSecretProvider.init quotingLib.toOpenBaoLib (providerFor "s.one") = .ok p ∧
      p.getSecrets quotingLib (answering 200 (bodyOf (.arr []))) "w" =
        .error (.py ⟨.attributeError, "object has no attribute 'items'"⟩) ∧
      p.getSecrets quotingLib
          (fun _ _ => .full (.raised ⟨"TooManyRedirects", [], "Exceeded 30 redirects."⟩)) "w" =
        .error (.library ⟨"TooManyRedirects", [], "Exceeded 30 redirects."⟩) ∧
      ¬ ∀ network, (requestsGet quotingLib.requests network defaultRequest).Classified
        (p.getSecrets quotingLib network "w") := by
  refine ⟨_, rfl, rfl, rfl, fun hclassified => ?_⟩
  exact hclassified (answering 200 (bodyOf (.arr [])))

end ClawEngine.Secrets
