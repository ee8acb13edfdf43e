import TessariDB.DocumentFaults
import TessariDB.HttpRequests

/-!
# What Is Made of an Answer

What a call of the HTTP client comes to, whatever is answered. Each call reads the answers to its
sign-ins and the last answer to its own request; an answer is *tolerated* where reading it ends in
nothing but a result, a `Malformed` or an `HTTPError` of the answer's status.

A request is sent unless `http.client` refuses its credential as a header, which a token can bring
about.

## Main results

* `openSession_judged`, `authorization_judged`, `attempt_judged`: what a step comes to, and the
  sign-ins it was answered.
* `answers_are_results_or_client_errors`: when a call ends as it should.
-/

namespace TessariDB

open ByteCodec Utf8 Text Effects Sequences

namespace Http

open DocumentFaults

/-! ### Headers -/

/-- A value `http.client` sends in a header: Latin-1, and no line ends in it but to be folded. -/
def IsHeaderValue : Str → Prop
  | [] => True
  | c :: rest =>
      c.val < 0x100 ∧ (c.val = 0x0A → ∃ d ∈ rest.head?, d.val = 0x20 ∨ d.val = 0x09) ∧
        (c.val = 0x0D → ∃ d ∈ rest.head?, d.val = 0x20 ∨ d.val = 0x09 ∨ d.val = 0x0A) ∧
        IsHeaderValue rest

instance decidableIsHeaderValue : (s : Str) → Decidable (IsHeaderValue s)
  | [] => instDecidableTrue
  | c :: rest =>
      have := decidableIsHeaderValue rest
      inferInstanceAs (Decidable (c.val < 0x100 ∧
        (c.val = 0x0A → ∃ d ∈ rest.head?, d.val = 0x20 ∨ d.val = 0x09) ∧
        (c.val = 0x0D → ∃ d ∈ rest.head?, d.val = 0x20 ∨ d.val = 0x09 ∨ d.val = 0x0A) ∧
        IsHeaderValue rest))

theorem isHeaderValue_of_visible {s : Str} (h : ∀ c ∈ s, 0x20 ≤ c.val ∧ c.val < 0x80) :
    IsHeaderValue s := by
  induction s with
  | nil => exact trivial
  | cons c rest ih =>
      obtain ⟨hc, hrest⟩ := List.forall_mem_cons.mp h
      exact ⟨by omega, fun _ => by omega, fun _ => by omega, ih hrest⟩

theorem visible_base64Digit {d : ℕ} (h : d < 64) :
    0x20 ≤ (base64Digit d).val ∧ (base64Digit d).val < 0x80 := by
  revert d
  decide

theorem visible_base64 (raw : Bytes) : ∀ c ∈ base64 raw, 0x20 ≤ c.val ∧ c.val < 0x80 := by
  fun_induction base64 raw with
  | case1 a b c rest ih =>
      have ha := a.toNat_lt
      have hb := b.toNat_lt
      have hc := c.toNat_lt
      simp only [List.forall_mem_cons]
      exact ⟨visible_base64Digit (by omega), visible_base64Digit (by omega),
        visible_base64Digit (by omega), visible_base64Digit (by omega), ih⟩
  | case2 a b =>
      have ha := a.toNat_lt
      have hb := b.toNat_lt
      simp only [List.forall_mem_cons]
      exact ⟨visible_base64Digit (by omega), visible_base64Digit (by omega),
        visible_base64Digit (by omega), by decide, List.forall_mem_nil _⟩
  | case3 a =>
      have ha := a.toNat_lt
      simp only [List.forall_mem_cons]
      exact ⟨visible_base64Digit (by omega), visible_base64Digit (by omega), by decide, by decide,
        List.forall_mem_nil _⟩
  | case4 => exact List.forall_mem_nil _

/-- The password is always one. -/
theorem isHeaderValue_basic {user header : Str} {password : Option Str}
    (h : basic user password = .ok header) : IsHeaderValue header := by
  obtain ⟨raw, -, hraw⟩ := Sequences.bind_eq_ok.mp h
  obtain rfl : ofString "Basic " ++ base64 raw = header := Except.ok.inj hraw
  refine isHeaderValue_of_visible (List.forall_mem_append.mpr ⟨?_, visible_base64 raw⟩)
  exact forall_mem_of_all (by decide)

/-! ### Tolerated answers -/

/-- A status that is no refusal on a route. -/
def Allowed (allow : List ℕ) (answer : HttpAnswer) : Prop :=
  answer.status ∈ allow ∨ (200 ≤ answer.status ∧ answer.status < 300)

instance (allow : List ℕ) (answer : HttpAnswer) : Decidable (Allowed allow answer) :=
  instDecidableOr

/-- The fault that reading ends with is one that is refused, if there is one. -/
def Readable (faults : List Fault) : Prop := faults.head? ≠ some .escapes

variable (lib : Library)

/-- An answer to a sign-in: a token that can be presented, no JSON, no session, or a refusal that
tells why. -/
def SignInTolerated (answer : HttpAnswer) : Prop :=
  if answer.status = 200 then
    Readable (bodyFaults lib (needed · "token") answer.body) ∧
      ∀ node token, lib.loads answer.body = .ok node → member node "token" = some token →
        token.truthy = true → IsHeaderValue (bearer lib.toInterpreter token)
  else answer.status = 401 ∨ Explains lib answer.body

/-- The last answer to a request: a document whose first fault is refused, or a refusal that tells
why. -/
def AnswerTolerated (allow : List ℕ) (faults : HttpAnswer → List Fault) (answer : HttpAnswer) :
    Prop :=
  if Allowed allow answer then Readable (faults answer) else Explains lib answer.body

/-- The statuses past 2xx that a call takes for answers. -/
def Call.allow : Call → List ℕ
  | .get .. => [404]
  | .listing .. => [404]
  | .health => [503]
  | .ready => [503]
  | _ => []

/-- The faults of what a call reads; the calls that return a body, or nothing, read no document. -/
def Call.faults : Call → HttpAnswer → List Fault
  | .script _ declared, answer =>
      bodyFaults lib (resultsFaults lib.toInterpreter (declared.getD {})) answer.body
  | .listing .., answer =>
      if answer.status = 404 then [] else bodyFaults lib listingFaults answer.body
  | .append .., answer => bodyFaults lib appendFaults answer.body
  | .health, answer => bodyFaults lib (healthFaults lib.toInterpreter) answer.body
  | .ready, answer => bodyFaults lib (healthFaults lib.toInterpreter) answer.body
  | _, _ => []

/-- Each answer to a sign-in is tolerated. -/
def SignInsTolerated (added : List Exchange) : Prop :=
  ∀ x ∈ added, ¬ x.OfRoute → ∀ answer, x.response = .answered answer → SignInTolerated lib answer

/-- The answer that ended the call on its route is tolerated, if one did. -/
def LastTolerated (allow : List ℕ) (faults : HttpAnswer → List Fault) (added : List Exchange) :
    Prop :=
  ∀ x, added.getLast? = some x → x.OfRoute → ∀ answer, x.response = .answered answer →
    AnswerTolerated lib allow faults answer

/-- The token held can be presented, if there is one to present. -/
def Held (client : HTTPClient) (w : World) : Prop :=
  client.user ≠ none → ∀ token, w.session.present = .token token →
    IsHeaderValue (bearer lib.toInterpreter token)

/-- A call whose every answer that is read is tolerated. -/
structure Tolerated (client : HTTPClient) (call : Call) (w : World) (added : List Exchange) :
    Prop where
  held : Held lib client w
  signIns : SignInsTolerated lib added
  last : LastTolerated lib call.allow (call.faults lib) added

/-! ### How a call ends -/

/-- An exchange whose status is a refusal where it was answered. -/
def Exchange.IsRefused (allow : List ℕ) (x : Exchange) : Prop :=
  ∃ answer, x.response = .answered answer ∧
    if x.OfRoute then ¬ Allowed allow answer else answer.status ≠ 200 ∧ answer.status ≠ 401

/-- The last exchange was not a refusal. -/
def NotRefused (allow : List ℕ) (w : World) : Prop :=
  ∀ x, w.history.getLast? = some x → ¬ x.IsRefused allow

/-- A result or a `Malformed` of an answer that was no refusal, or the `HTTPError` with the status
of the last answer. -/
def Conforms (allow : List ℕ) : Option HttpRaised → World → Prop
  | none, w => NotRefused allow w
  | some (.document (.malformed _)), w => NotRefused allow w
  | some (.httpError status _ _ _), w =>
      ∃ x answer, w.history.getLast? = some x ∧ x.response = .answered answer ∧
        status = answer.status
  | some _, _ => False

/-- What a call raised. -/
def raised {α : Type} : EStateM.Result HttpRaised World α → Option HttpRaised
  | .ok _ _ => none
  | .error e _ => some e

section Judged

variable {lib : Library} {node : List Exchange → Request → Response} {client : HTTPClient}
  {w w₁ w' : World} {allow : List ℕ} {faults : HttpAnswer → List Fault} {x : Exchange}
  {answer : HttpAnswer}

theorem signInsTolerated_append {added added' : List Exchange} :
    SignInsTolerated lib (added ++ added') ↔
      SignInsTolerated lib added ∧ SignInsTolerated lib added' :=
  List.forall_mem_append

/-- A document is read in answer to what was no refusal. -/
theorem conforms_document (h : NotRefused allow w) (why : JsonRaised) :
    Conforms allow (some (.document why)) w ↔ Fault.of why ≠ .escapes := by
  cases why with
  | malformed message => exact iff_of_true h (by simp [Fault.of])
  | _ => exact iff_of_false id (not_not.mpr rfl)

/-- A refusal is raised as one when it tells why. -/
theorem conforms_refusal (hlast : w.history.getLast? = some x) (hx : x.response = .answered answer)
    (hrefused : x.IsRefused allow) (location : Str) :
    Conforms allow (some (refusal lib answer location)) w ↔ Explains lib answer.body := by
  by_cases hwhy : Explains lib answer.body
  · obtain ⟨text, refusalClass, h⟩ := (refusal_iff lib answer location).mpr hwhy
    rw [h]
    exact iff_of_true ⟨x, answer, hlast, hx, rfl⟩ hwhy
  · refine iff_of_false ?_ hwhy
    cases hmessage : message lib answer.body with
    | ok text => exact absurd ((message_eq_ok_iff lib _).mp ⟨text, hmessage⟩) hwhy
    | error why =>
        have hraised : refusal lib answer location = .document why := by
          rw [refusal, hmessage]
          rfl
        rw [hraised]
        intro h
        cases why with
        | malformed text => exact h x hlast hrefused
        | _ => exact h

/-- Every request is answered that `http.client` sends. -/
def AnswersAll (node : List Exchange → Request → Response) : Prop :=
  ∀ history r, (∃ answer, node history r = .answered answer) ↔
    ∀ header, r.authorization = some header → IsHeaderValue header

theorem request_judged (hnode : AnswersAll node) (r : RouteRequest) (header : Option Str) :
    Ends (request node r header) w
      (fun answer w' => (∀ h, header = some h → IsHeaderValue h) ∧
        w' = { w with history := w.history ++ [⟨⟨r, header⟩, .answered answer⟩] })
      (fun e w' => e = .requestFailed ∧ (¬ ∀ h, header = some h → IsHeaderValue h) ∧
        w' = { w with history := w.history ++ [⟨⟨r, header⟩, .failed⟩] }) := by
  rw [Ends, request]
  cases hanswer : node w.history ⟨r, header⟩ with
  | answered answer => exact ⟨(hnode _ _).mp ⟨answer, hanswer⟩, rfl⟩
  | failed =>
      refine ⟨rfl, fun h => ?_, rfl⟩
      obtain ⟨answer, hanswered⟩ := (hnode w.history ⟨r, header⟩).mpr h
      cases hanswer.symm.trans hanswered

/-! ### Signing in -/

theorem json_eq_ok_iff {body : Bytes} {node : Json} :
    json lib body = .ok node ↔ lib.loads body = .ok node := by
  rw [json]
  cases lib.loads body with
  | ok found => exact Iff.rfl
  | error why =>
      cases why with
      | _ => exact iff_of_false (by rintro ⟨⟩) (by rintro ⟨⟩)

theorem sessionToken_eq_ok_iff {body : Bytes} {token : Json} :
    sessionToken lib body = .ok token ↔
      ∃ node, lib.loads body = .ok node ∧ member node "token" = some token := by
  rw [sessionToken, Sequences.bind_eq_ok]
  simp only [json_eq_ok_iff]
  refine exists_congr fun node => and_congr_right fun _ => ⟨subscript_eq_ok, fun h => ?_⟩
  cases node with
  | object members =>
      change Dict.get? members (ofString "token") = some token at h
      rw [Script.subscript, JsonValues.item, h]
  | _ => cases h

/-- A sign-in that yields a token. -/
theorem signInTolerated_of_token (h200 : answer.status = 200) {token : Json}
    (h : sessionToken lib answer.body = .ok token) : SignInTolerated lib answer ↔
      (token.truthy = true → IsHeaderValue (bearer lib.toInterpreter token)) := by
  have hends := sessionToken_endsWith lib answer.body
  rw [h] at hends
  obtain ⟨node, hnode, htoken⟩ := sessionToken_eq_ok_iff.mp h
  rw [SignInTolerated, if_pos h200, hends.of_ok]
  constructor
  · rintro ⟨-, hall⟩
    exact hall node token hnode htoken
  · refine fun htaken => ⟨by simp [Readable], fun node' token' hnode' htoken' => ?_⟩
    cases hnode.symm.trans hnode'
    cases htoken.symm.trans htoken'
    exact htaken

/-- A sign-in that was answered and yields none. -/
theorem signInTolerated_of_error (h200 : answer.status = 200) {why : JsonRaised}
    (h : sessionToken lib answer.body = .error why) :
    SignInTolerated lib answer ↔ Fault.of why ≠ .escapes := by
  have hends := sessionToken_endsWith lib answer.body
  rw [h] at hends
  obtain ⟨fault, hfault, rfl⟩ := hends.of_error
  rw [SignInTolerated, if_pos h200, Readable, hfault, ne_eq, Option.some.injEq]
  refine and_iff_left fun node token hnode htoken => ?_
  cases h.symm.trans (sessionToken_eq_ok_iff.mpr ⟨node, hnode, htoken⟩)

/-- A sign-in that was refused. -/
theorem signInTolerated_of_refused (h200 : answer.status ≠ 200) (h401 : answer.status ≠ 401) :
    SignInTolerated lib answer ↔ Explains lib answer.body := by
  rw [SignInTolerated, if_neg h200, or_iff_right h401]

theorem getLast?_history {w w' : World} (h : w'.history = w.history ++ [x]) :
    w'.history.getLast? = some x := by
  rw [h, List.getLast?_concat]

/-- **What a sign-in comes to.** -/
theorem openSession_judged (allow : List ℕ) (hnode : AnswersAll node) {user header : Str}
    (hbasic : basic user client.password = .ok header) :
    Ends (openSession lib node client user) w
      (fun token w' => ∃ x answer, w'.history = w.history ++ [x] ∧ ¬ x.OfRoute ∧
        x.response = .answered answer ∧ (SignInTolerated lib answer ↔
          (token.truthy = true → IsHeaderValue (bearer lib.toInterpreter token))))
      (fun e w' => ∃ x answer, w'.history = w.history ++ [x] ∧ ¬ x.OfRoute ∧
        x.response = .answered answer ∧
          (SignInTolerated lib answer ↔ Conforms allow (some e) w')) := by
  rw [openSession, hbasic, ends_settle_ok]
  refine (request_judged hnode _ _).bind ?_ ?_
  · rintro answer _ ⟨-, rfl⟩
    have hsession : ¬ Exchange.OfRoute
        ⟨⟨⟨"POST", SESSION, none, none⟩, some header⟩, .answered answer⟩ := fun h => h rfl
    by_cases h200 : answer.status = 200
    · rw [if_pos h200]
      cases htoken : sessionToken lib answer.body with
      | ok token =>
          exact ⟨_, answer, rfl, hsession, rfl, signInTolerated_of_token h200 htoken⟩
      | error why =>
          refine ⟨_, answer, rfl, hsession, rfl, ?_⟩
          rw [signInTolerated_of_error h200 htoken]
          refine (conforms_document (fun x hx => ?_) why).symm
          obtain rfl := Option.some.inj ((getLast?_history rfl).symm.trans hx)
          rintro ⟨_, heq, hrefused⟩
          obtain rfl := Response.answered.inj heq
          rw [if_neg hsession] at hrefused
          exact hrefused.1 h200
    · rw [if_neg h200]
      by_cases h401 : answer.status = 401
      · rw [if_pos h401]
        refine ⟨_, answer, rfl, hsession, rfl, iff_of_true ?_ (by simp [Json.truthy])⟩
        rw [SignInTolerated, if_neg h200]
        exact .inl h401
      · rw [if_neg h401]
        refine ⟨_, answer, rfl, hsession, rfl, ?_⟩
        rw [signInTolerated_of_refused h200 h401]
        refine (conforms_refusal (getLast?_history rfl) rfl ⟨answer, rfl, ?_⟩ []).symm
        rw [if_neg hsession]
        exact ⟨h200, h401⟩
  · rintro e w' ⟨-, hnot, -⟩
    refine absurd (fun h hh => ?_) hnot
    obtain rfl := Option.some.inj hh
    exact isHeaderValue_basic hbasic

theorem signInsTolerated_singleton (hx : ¬ x.OfRoute) (hanswer : x.response = .answered answer) :
    SignInsTolerated lib [x] ↔ SignInTolerated lib answer := by
  rw [SignInsTolerated, List.forall_mem_singleton]
  constructor
  · intro h
    exact h hx answer hanswer
  · intro h _ answer' hanswer'
    cases hanswer.symm.trans hanswer'
    exact h

/-- The exchanges of a route say nothing of signing in. -/
theorem signInsTolerated_route (hx : x.OfRoute) : SignInsTolerated lib [x] := by
  rw [SignInsTolerated, List.forall_mem_singleton]
  exact fun hnot => absurd hx hnot

/-- The credential of a client has a spelling. -/
def Spellable (client : HTTPClient) : Prop :=
  ∀ user, client.user = some user → ∃ header, basic user client.password = .ok header

theorem held_of_present (h : ∀ token, w.session.present ≠ .token token) : Held lib client w :=
  fun _ token htoken => absurd htoken (h token)

/-- **The credential of a request**, which can be sent when what it was made of is tolerated. -/
theorem authorization_judged (allow : List ℕ) (hnode : AnswersAll node) (hclient : Spellable client) :
    Ends (authorization lib node client) w
      (fun header w' => ∃ added, w'.history = w.history ++ added ∧
        ((∀ h, header = some h → IsHeaderValue h) ↔
          Held lib client w ∧ SignInsTolerated lib added))
      (fun e w' => ∃ x, w'.history = w.history ++ [x] ∧ ¬ x.OfRoute ∧
        (Conforms allow (some e) w' ↔ Held lib client w ∧ SignInsTolerated lib [x])) := by
  have hnone : SignInsTolerated lib [] := List.forall_mem_nil _
  rw [authorization]
  cases huser : client.user with
  | none =>
      refine ⟨[], (List.append_nil _).symm, iff_of_true (by simp) ⟨?_, hnone⟩⟩
      exact fun hsome => absurd huser hsome
  | some user =>
      obtain ⟨header, hbasic⟩ := hclient user huser
      have hplain := isHeaderValue_basic hbasic
      have hlocked : Ends (locked fun s => (s.present, s)) w
          (fun a w' => a = w.session.present ∧ w = w') fun _ _ => False := ⟨rfl, rfl⟩
      refine hlocked.bind ?_ fun _ _ h => h.elim
      rintro _ _ ⟨rfl, rfl⟩
      cases hpresent : w.session.present with
      | token token =>
          refine ⟨[], (List.append_nil _).symm, ?_⟩
          constructor
          · intro h
            refine ⟨fun _ token' htoken' => ?_, hnone⟩
            cases hpresent.symm.trans htoken'
            exact h _ rfl
          · rintro ⟨hheld, -⟩ h hh
            obtain rfl := Option.some.inj hh
            exact hheld (by simp [huser]) token hpresent
      | password =>
          have hheld : Held lib client w := held_of_present (by simp [hpresent])
          dsimp only
          rw [hbasic]
          refine ⟨[], (List.append_nil _).symm, iff_of_true (fun h hh => ?_) ⟨hheld, hnone⟩⟩
          obtain rfl := Option.some.inj hh
          exact hplain
      | fresh =>
          have hheld : Held lib client w := held_of_present (by simp [hpresent])
          dsimp only
          refine (openSession_judged allow hnode hbasic).bind ?_ ?_
          · rintro token w₁ ⟨x, answer, hhistory, hx, hanswer, htolerated⟩
            rw [← signInsTolerated_singleton hx hanswer] at htolerated
            by_cases htoken : token.truthy = true
            · rw [if_pos htoken]
              refine ⟨[x], hhistory, ?_⟩
              rw [and_iff_right hheld, htolerated]
              constructor
              · exact fun h _ => h _ rfl
              · intro h h' hh
                obtain rfl := Option.some.inj hh
                exact h htoken
            · rw [if_neg htoken, hbasic]
              refine ⟨[x], hhistory, iff_of_true (fun h hh => ?_)
                ⟨hheld, htolerated.mpr fun h => absurd h htoken⟩⟩
              obtain rfl := Option.some.inj hh
              exact hplain
          · rintro e w₁ ⟨x, answer, hhistory, hx, hanswer, htolerated⟩
            rw [← signInsTolerated_singleton hx hanswer] at htolerated
            exact ⟨x, hhistory, hx, by rw [and_iff_right hheld, htolerated]⟩

/-! ### Requests -/

/-- A request that was answered, its credential having been sent. -/
def AnsweredTo (lib : Library) (client : HTTPClient) (w : World) (answer : HttpAnswer)
    (w' : World) : Prop :=
  ∃ added x, w'.history = w.history ++ (added ++ [x]) ∧ x.OfRoute ∧
    x.response = .answered answer ∧ Held lib client w ∧ SignInsTolerated lib (added ++ [x])

/-- A request that was not: it conforms when everything up to there is tolerated. -/
def StoppedBy (lib : Library) (client : HTTPClient) (allow : List ℕ) (w : World) (e : HttpRaised)
    (w' : World) : Prop :=
  ∃ added x, w'.history = w.history ++ (added ++ [x]) ∧ (x.OfRoute → x.response = .failed) ∧
    (Conforms allow (some e) w' ↔ Held lib client w ∧ SignInsTolerated lib (added ++ [x]))

/-- **One request, with its credential.** -/
theorem attempt_judged (allow : List ℕ) (hnode : AnswersAll node) (hclient : Spellable client) {r : RouteRequest}
    (hr : r.where_ ≠ SESSION) :
    Ends (attempt lib node client r) w (AnsweredTo lib client w)
      (StoppedBy lib client allow w) := by
  rw [attempt]
  refine (authorization_judged allow hnode hclient).bind ?_ ?_
  · rintro header w₁ ⟨added, hhistory, hheader⟩
    have hroute : ∀ response, Exchange.OfRoute ⟨⟨r, header⟩, response⟩ := fun _ => hr
    refine (request_judged hnode r header).mono ?_ ?_
    · rintro answer _ ⟨hsent, rfl⟩
      obtain ⟨hheld, hsignIns⟩ := hheader.mp hsent
      refine ⟨added, _, by rw [hhistory, List.append_assoc], hroute _, rfl, hheld, ?_⟩
      exact signInsTolerated_append.mpr ⟨hsignIns, signInsTolerated_route (hroute _)⟩
    · rintro _ _ ⟨rfl, hnot, rfl⟩
      refine ⟨added, _, by rw [hhistory, List.append_assoc], fun _ => rfl, iff_of_false id ?_⟩
      rintro ⟨hheld, hsignIns⟩
      exact hnot (hheader.mpr ⟨hheld, (signInsTolerated_append.mp hsignIns).1⟩)
  · rintro e w₁ ⟨x, hhistory, hx, hconforms⟩
    exact ⟨[], x, hhistory, fun hroute => absurd hroute hx, hconforms⟩

theorem AnsweredTo.again (h : AnsweredTo lib client w answer w₁) {w₂ : World}
    (hw : w₂.history = w₁.history) {other : HttpAnswer} (h' : AnsweredTo lib client w₂ other w') :
    AnsweredTo lib client w other w' := by
  obtain ⟨added, x, hhistory, -, -, hheld, hsignIns⟩ := h
  obtain ⟨added', x', hhistory', hx', hanswer', -, hsignIns'⟩ := h'
  refine ⟨added ++ [x] ++ added', x', ?_, hx', hanswer', hheld, ?_⟩
  · rw [hhistory', hw, hhistory]
    simp only [List.append_assoc]
  · rw [List.append_assoc]
    exact signInsTolerated_append.mpr ⟨hsignIns, hsignIns'⟩

theorem AnsweredTo.stopped (h : AnsweredTo lib client w answer w₁) {w₂ : World}
    (hw : w₂.history = w₁.history) (hheld₂ : Held lib client w₂) {e : HttpRaised}
    (h' : StoppedBy lib client allow w₂ e w') : StoppedBy lib client allow w e w' := by
  obtain ⟨added, x, hhistory, -, -, hheld, hsignIns⟩ := h
  obtain ⟨added', x', hhistory', hx', hconforms⟩ := h'
  refine ⟨added ++ [x] ++ added', x', ?_, hx', ?_⟩
  · rw [hhistory', hw, hhistory]
    simp only [List.append_assoc]
  · have hall : SignInsTolerated lib (added ++ [x] ++ added' ++ [x']) ↔
        SignInsTolerated lib (added' ++ [x']) := by
      rw [List.append_assoc, signInsTolerated_append]
      exact and_iff_right hsignIns
    rw [hconforms, hall, and_iff_right hheld, and_iff_right hheld₂]

/-- **The request of a route, and its one retry.** -/
theorem send_judged (allow : List ℕ) (hnode : AnswersAll node) (hclient : Spellable client) {r : RouteRequest}
    (hr : r.where_ ≠ SESSION) :
    Ends (send lib node client r allow) w
      (fun answer w' => AnsweredTo lib client w answer w' ∧ Allowed allow answer)
      (fun e w' => StoppedBy lib client allow w e w' ∨ ∃ answer, AnsweredTo lib client w answer w' ∧
        ¬ Allowed allow answer ∧ e = refusal lib answer answer.location) := by
  rw [send]
  refine (attempt_judged allow hnode hclient hr).bind ?_ fun _ _ h => .inl h
  rintro first w₁ hfirst
  have hretried : Ends (retried lib node client r first) w₁ (AnsweredTo lib client w)
      (StoppedBy lib client allow w) := by
    rw [retried]
    by_cases h401 : first.status = 401
    · rw [if_pos h401]
      have hlocked : Ends (locked Session.discard) w₁
          (fun _ w' => w' = { w₁ with session := (Session.discard w₁.session).2 })
          fun _ _ => False := rfl
      refine hlocked.bind ?_ fun _ _ h => h.elim
      rintro held w₂ rfl
      have hheld : Held lib client { w₁ with session := (Session.discard w₁.session).2 } := by
        refine held_of_present fun token => ?_
        rw [Session.discard, Session.present_null rfl]
        split
        · simp
        · simp
      by_cases hhad : held = true
      · rw [if_pos hhad]
        have hsame : ({ w₁ with session := (Session.discard w₁.session).2 } : World).history =
            w₁.history := rfl
        exact (attempt_judged allow hnode hclient hr).mono
          (fun _ _ h => hfirst.again hsame h) fun _ _ h => hfirst.stopped hsame hheld h
      · rw [if_neg hhad]
        exact hfirst
    · rw [if_neg h401]
      exact hfirst
  refine hretried.bind ?_ fun _ _ h => .inl h
  rintro answer w₂ hanswered
  by_cases hallowed : Allowed allow answer
  · have haccept : accept lib allow answer = .ok answer := if_pos hallowed
    rw [haccept]
    exact ⟨hanswered, hallowed⟩
  · have haccept : accept lib allow answer = .error (refusal lib answer answer.location) :=
      if_neg hallowed
    rw [haccept]
    exact .inr ⟨answer, hanswered, hallowed, rfl⟩

/-! ### Calls -/

/-- What a call comes to, against the exchanges it added. -/
def Verdict (lib : Library) (client : HTTPClient) (allow : List ℕ)
    (faults : HttpAnswer → List Fault) (w : World) (raised : Option HttpRaised) (w' : World) : Prop :=
  ∃ added, w'.history = w.history ++ added ∧ (Conforms allow raised w' ↔
    Held lib client w ∧ SignInsTolerated lib added ∧ LastTolerated lib allow faults added)

theorem StoppedBy.verdict {e : HttpRaised} (h : StoppedBy lib client allow w e w') :
    Verdict lib client allow faults w (some e) w' := by
  obtain ⟨added, x, hhistory, hx, hconforms⟩ := h
  refine ⟨_, hhistory, ?_⟩
  rw [hconforms, and_iff_left (a := SignInsTolerated lib _)]
  intro y hy hroute answer hanswer
  rw [List.getLast?_concat] at hy
  obtain rfl := Option.some.inj hy
  cases (hx hroute).symm.trans hanswer

/-- What is made of the last answer decides. -/
theorem AnsweredTo.verdict (h : AnsweredTo lib client w answer w') {raised : Option HttpRaised}
    (hconforms : ∀ x, w'.history.getLast? = some x → x.OfRoute → x.response = .answered answer →
      (Conforms allow raised w' ↔ AnswerTolerated lib allow faults answer)) :
    Verdict lib client allow faults w raised w' := by
  obtain ⟨added, x, hhistory, hx, hanswer, hheld, hsignIns⟩ := h
  have hlast : w'.history.getLast? = some x := by
    rw [hhistory, ← List.append_assoc, List.getLast?_concat]
  refine ⟨_, hhistory, ?_⟩
  rw [hconforms x hlast hx hanswer, and_iff_right hheld, and_iff_right hsignIns]
  constructor
  · intro htolerated y hy _ answer' hanswer'
    rw [List.getLast?_concat] at hy
    obtain rfl := Option.some.inj hy
    cases hanswer.symm.trans hanswer'
    exact htolerated
  · exact fun h => h x List.getLast?_concat hx answer hanswer

/-- Reading an answer raises over its document. -/
def RaisesOver (fault : Fault) (e : HttpRaised) : Prop := ∃ why, e = .document why ∧ fault.Raises why

/-- **What a route comes to.** -/
theorem call_judged {α : Type} (hnode : AnswersAll node) (hclient : Spellable client)
    (route : Route α) {r : RouteRequest} (hrequest : route.request = .ok r)
    (hr : r.where_ ≠ SESSION)
    (hread : ∀ answer, EndsWith RaisesOver (route.read answer) (faults answer)) :
    Ends (route.call lib node client) w
      (fun _ w' => Verdict lib client route.allow faults w none w')
      (fun e w' => Verdict lib client route.allow faults w (some e) w') := by
  have hnot : ∀ {w' : World} {answer : HttpAnswer}, Allowed route.allow answer →
      ∀ x, w'.history.getLast? = some x → x.OfRoute → x.response = .answered answer →
        NotRefused route.allow w' := by
    intro w' answer hallowed x hlast hroute hanswer y hy
    cases hlast.symm.trans hy
    rintro ⟨answer', hanswer', hrefused⟩
    cases hanswer.symm.trans hanswer'
    rw [if_pos hroute] at hrefused
    exact hrefused hallowed
  rw [Route.call, hrequest, ends_settle_ok]
  refine (send_judged route.allow hnode hclient hr).bind ?_ ?_
  · rintro answer w₁ ⟨hanswered, hallowed⟩
    have hends := hread answer
    cases hresult : route.read answer with
    | ok a =>
        rw [hresult] at hends
        refine hanswered.verdict fun x hlast hx hanswer => ?_
        rw [AnswerTolerated, if_pos hallowed, hends.of_ok]
        exact iff_of_true (hnot hallowed x hlast hx hanswer) (by simp [Readable])
    | error e =>
        rw [hresult] at hends
        obtain ⟨fault, hfault, why, rfl, rfl⟩ := hends.of_error
        refine hanswered.verdict fun x hlast hx hanswer => ?_
        rw [AnswerTolerated, if_pos hallowed, Readable, hfault, ne_eq, Option.some.injEq]
        exact conforms_document (hnot hallowed x hlast hx hanswer) why
  · rintro e w₁ (hstopped | ⟨answer, hanswered, hallowed, rfl⟩)
    · exact hstopped.verdict
    · refine hanswered.verdict fun x hlast hx hanswer => ?_
      rw [AnswerTolerated, if_neg hallowed]
      exact conforms_refusal hlast hanswer ⟨answer, hanswer, by rwa [if_pos hx]⟩ _

theorem readDocument_endsWith {α : Type} {read : Json → Except JsonRaised α}
    {faults : Json → List Fault} (h : ∀ node, EndsWith Fault.Raises (read node) (faults node))
    (answer : HttpAnswer) :
    EndsWith RaisesOver (readDocument lib read answer) (bodyFaults lib faults answer.body) :=
  (body_endsWith lib h answer.body).mapError fun _ why hraises => ⟨why, rfl, hraises⟩

theorem perform_judged (hnode : AnswersAll node) (hclient : Spellable client) (call : Call)
    {r : RouteRequest} (hown : call.own lib = some r) :
    Ends (call.perform lib node client) w
      (fun _ w' => Verdict lib client call.allow (call.faults lib) w none w')
      (fun e w' => Verdict lib client call.allow (call.faults lib) w (some e) w') := by
  have hr := own_ne_session hown
  cases call with
  | script source declared =>
      exact (call_judged hnode hclient (script lib source declared)
        (request_eq_ok hown) hr (readDocument_endsWith (readResults_endsWith _ _))).discard
  | put namespace_ database bucket path content =>
      exact call_judged hnode hclient (put lib namespace_ database bucket path content)
        (request_eq_ok hown) hr fun _ => .ok ()
  | get namespace_ database bucket path =>
      exact (call_judged hnode hclient (get lib namespace_ database bucket path)
        (request_eq_ok hown) hr fun _ => .ok _).discard
  | delete namespace_ database bucket path =>
      exact call_judged hnode hclient (delete lib namespace_ database bucket path)
        (request_eq_ok hown) hr fun _ => .ok ()
  | listing namespace_ database bucket =>
      refine (call_judged hnode hclient (listing lib namespace_ database bucket)
        (request_eq_ok hown) hr fun answer => ?_).discard
      change EndsWith RaisesOver (if answer.status = 404 then .ok none else _)
        (if answer.status = 404 then [] else _)
      split
      · exact .ok none
      · exact readDocument_endsWith (listing_endsWith _) answer
  | append namespace_ database series events =>
      exact (call_judged hnode hclient (append lib namespace_ database series events)
        (request_eq_ok hown) hr (readDocument_endsWith append_endsWith)).discard
  | backup since =>
      exact (call_judged hnode hclient (backup since) (request_eq_ok hown) hr fun _ => .ok _).discard
  | health =>
      exact (call_judged hnode hclient (health lib) (request_eq_ok hown) hr
        (readDocument_endsWith (readHealth_endsWith _))).discard
  | ready =>
      exact (call_judged hnode hclient (ready lib) (request_eq_ok hown) hr
        (readDocument_endsWith (readHealth_endsWith _))).discard
  | endSession => cases hown

end Judged

/-- **An answer is a result or a client error exactly when it is tolerated.** Whatever is answered
to a call that gets as far as making its request, in whatever state of the session: it returns or
raises `Malformed` over an answer that was no refusal, or raises the `HTTPError` of the last answer,
exactly when the token it presents can be presented and every answer it reads is tolerated. -/
theorem answers_are_results_or_client_errors (lib : Library)
    (node : List Exchange → Request → Response) (client : HTTPClient) (hnode : AnswersAll node)
    (hclient : Spellable client) (w : World) (call : Call) (r : RouteRequest)
    (hown : call.own lib = some r) :
    Conforms call.allow (raised (call.perform lib node client w)) (call.next lib node client w) ↔
      Tolerated lib client call w
        ((call.next lib node client w).history.drop w.history.length) := by
  have hverdict : Verdict lib client call.allow (call.faults lib) w
      (raised (call.perform lib node client w)) (call.next lib node client w) := by
    have hends := perform_judged (w := w) hnode hclient call hown
    rw [Ends] at hends
    rw [Call.next]
    cases hrun : call.perform lib node client w with
    | ok a w' =>
        rw [hrun] at hends
        exact hends
    | error e w' =>
        rw [hrun] at hends
        exact hends
  obtain ⟨added, hhistory, hconforms⟩ := hverdict
  rw [hconforms, hhistory, List.drop_left]
  constructor
  · rintro ⟨hheld, hsignIns, hlast⟩
    exact ⟨hheld, hsignIns, hlast⟩
  · rintro ⟨hheld, hsignIns, hlast⟩
    exact ⟨hheld, hsignIns, hlast⟩

/-- A node, or what stands in front of it, that answers all it is sent alike. -/
def alike (answer : HttpAnswer) (_ : List Exchange) (r : Request) : Response :=
  if ∀ header ∈ r.authorization, IsHeaderValue header then .answered answer else .failed

theorem answersAll_alike (answer : HttpAnswer) : AnswersAll (alike answer) := by
  intro history r
  rw [alike]
  constructor
  · rintro ⟨_, h⟩ header hheader
    by_contra hnot
    rw [if_neg fun hall => hnot (hall header hheader)] at h
    cases h
  · intro h
    exact ⟨answer, if_pos fun header hheader => h header hheader⟩

/-- `[]`. -/
def EMPTY_LIST : Bytes := [0x5B, 0x5D]

/-- A library that knows one document. -/
def listLibrary : Library where
  toInterpreter := JsonValues.asciiInterpreter 0 JsonValues.unlimited
  loads body :=
    if body = EMPTY_LIST then .ok (.array [])
    else .error (.valueError "Expecting value: line 1 column 1 (char 0)")
  platform := ⟨fun _ => [], 4⟩

/-- An empty list is no refusal and no health, and neither reader of a document says so. -/
theorem empty_list_escapes :
    raised (Call.ready.perform listLibrary (alike ⟨502, EMPTY_LIST, []⟩) {} {}) =
        some (.document .attributeError) ∧
      raised (Call.ready.perform listLibrary (alike ⟨200, EMPTY_LIST, []⟩) {} {}) =
        some (.document .attributeError) :=
  ⟨rfl, rfl⟩

/-- A refusal with an empty body. -/
theorem answers_are_results_or_client_errors_empty :
    Conforms [503] (raised (Call.ready.perform listLibrary (alike ⟨502, [], []⟩) {} {}))
      (Call.ready.next listLibrary (alike ⟨502, [], []⟩) {} {}) := by
  refine (answers_are_results_or_client_errors listLibrary (alike ⟨502, [], []⟩) {}
    (answersAll_alike _) (by simp [Spellable]) {} .ready ⟨"GET", ofString "/ready", none, none⟩
    rfl).mpr ⟨fun h => absurd rfl h, ?_, fun x hx _ answer hanswer => ?_⟩
  · exact List.forall_mem_singleton.mpr fun hnot => absurd (by decide) hnot
  · obtain rfl := Option.some.inj hx
    obtain rfl := Response.answered.inj hanswer
    rw [AnswerTolerated, if_neg (by decide)]
    exact .inr ⟨_, rfl⟩

end Http

end TessariDB
