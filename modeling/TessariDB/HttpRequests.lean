import TessariDB.HttpSession
import TessariDB.JsonRestored

/-!
# What an HTTP Client Sends

A client with a user, whatever the node answers. It signs in until the node has no session to
open; from then on it sends the password with every request, and never signs in again. A request
that met a 401 on a token is sent once more, and no other request is.

`Kept` is the invariant: the client knows that there is no session to open exactly when it was
told so, and it holds no token then.

## Main results

* `openSession_ends`, `authorization_ends`, `send_ends`: what each step of a call comes to.
* `perform_ends`: what a call sends.
* `password_is_spent_once`: what a client sends in any sequence of calls.
-/

namespace TessariDB

open ByteCodec Utf8 Text Effects

namespace Http

/-! ### Exchanges -/

namespace Exchange

/-- A `POST /session`. -/
def IsSignIn (x : Exchange) : Prop := x.request.method = "POST" ∧ x.request.where_ = SESSION

/-- A request of a route. -/
def OfRoute (x : Exchange) : Prop := x.request.where_ ≠ SESSION

instance (x : Exchange) : Decidable x.OfRoute := instDecidableNot

/-- It was answered with this status. -/
def Answered (x : Exchange) (status : ℕ) : Prop :=
  ∃ answer, x.response = .answered answer ∧ answer.status = status

/-- It presented a token, and the token was refused. -/
def Lapsed (x : Exchange) : Prop :=
  (∃ token : Str, x.request.authorization = some ("Bearer " ++ token)) ∧ x.Answered 401

end Exchange

theorem Exchange.answered_iff {r : Request} {answer : HttpAnswer} {status : ℕ} :
    Exchange.Answered ⟨r, .answered answer⟩ status ↔ answer.status = status := by
  constructor
  · rintro ⟨_, heq, h⟩
    obtain rfl := Response.answered.inj heq
    exact h
  · exact fun h => ⟨answer, rfl, h⟩

theorem Exchange.not_answered_failed {r : Request} {status : ℕ} :
    ¬ Exchange.Answered ⟨r, .failed⟩ status := fun ⟨_, heq, _⟩ => nomatch heq

/-- Some sign-in was answered that there is no session to open. -/
def SignedOut (history : List Exchange) : Prop := ∃ x ∈ history, x.IsSignIn ∧ x.Answered 401

/-- What a route sends of a request: nothing, the request, or the request and again the request
when the first one's token had lapsed. -/
inductive SentOnce (r : RouteRequest) : List Exchange → Prop
  | unsent : SentOnce r []
  | once {x : Exchange} (hx : x.request.toRouteRequest = r) : SentOnce r [x]
  | again {x y : Exchange} (hx : x.request.toRouteRequest = r)
      (hy : y.request.toRouteRequest = r) (hlapsed : x.Lapsed) : SentOnce r [x, y]

/-- An exchange that may follow a history: the password goes out on a route only after it was
said that there is no session, and no sign-in goes out then. -/
structure Proper (user : Str) (password : Option Str) (before : List Exchange) (x : Exchange) :
    Prop where
  password : x.OfRoute → ∀ header, basic user password = .ok header →
    x.request.authorization = some header → SignedOut before
  signIn : SignedOut before → ¬ x.IsSignIn

/-- What happened between two worlds, as far as routes go. -/
def Added (w w' : World) (own : List Exchange) : Prop :=
  ∃ added, w'.history = w.history ++ added ∧ added.filter (fun x => x.OfRoute) = own

theorem Added.trans {w w' w'' : World} {own own' : List Exchange} (h : Added w w' own)
    (h' : Added w' w'' own') : Added w w'' (own ++ own') := by
  obtain ⟨added, hhistory, rfl⟩ := h
  obtain ⟨added', hhistory', rfl⟩ := h'
  exact ⟨added ++ added', by rw [hhistory', hhistory, List.append_assoc], List.filter_append ..⟩

theorem Added.none {w w' : World} (h : w'.history = w.history) : Added w w' [] :=
  ⟨[], by rw [h, List.append_nil], rfl⟩

/-! ### The invariant -/

/-- Each answer of 200 to a sign-in carries a token. -/
def TokensGiven (lib : Library) (node : List Exchange → Request → Response) : Prop :=
  ∀ history r answer, r.method = "POST" → r.where_ = SESSION →
    node history r = .answered answer → answer.status = 200 →
    ∃ token, token ≠ [] ∧ sessionToken lib answer.body = .ok (.string token)

section

variable (user : Str) (password : Option Str)

structure Kept (w : World) : Prop where
  asked : w.session.sessionless = true ↔ SignedOut w.history
  bare : w.session.sessionless = true → w.session.token = .null
  token : w.session.token = .null ∨ ∃ token, token ≠ [] ∧ w.session.token = .string token
  orderly : ∀ before x after, w.history = before ++ x :: after → Proper user password before x

end

variable {user : Str} {password : Option Str} {w w' : World}

theorem kept_fresh : Kept user password {} where
  asked := ⟨fun h => (nomatch h), fun ⟨_, hmem, _⟩ => (nomatch hmem)⟩
  bare _ := rfl
  token := .inl rfl
  orderly before x after h := by
    cases before <;> cases h

theorem orderly_concat {history : List Exchange} {x : Exchange}
    (h : ∀ before y after, history = before ++ y :: after → Proper user password before y)
    (hx : Proper user password history x) :
    ∀ before y after, history ++ [x] = before ++ y :: after → Proper user password before y := by
  intro before y after heq
  rcases List.eq_nil_or_concat after with rfl | ⟨after, z, rfl⟩
  · obtain ⟨rfl, hy⟩ := List.append_inj' heq rfl
    obtain rfl := List.head_eq_of_cons_eq hy
    exact hx
  · rw [List.concat_eq_append, ← List.cons_append, ← List.append_assoc] at heq
    obtain ⟨hhistory, -⟩ := List.append_inj' heq rfl
    exact h before y after hhistory

theorem signedOut_concat {history : List Exchange} {x : Exchange} :
    SignedOut (history ++ [x]) ↔ SignedOut history ∨ (x.IsSignIn ∧ x.Answered 401) := by
  simp only [SignedOut, List.mem_append, List.mem_singleton, or_and_right, exists_or,
    exists_eq_left]

/-- A request that tells nothing about sessions. -/
theorem Kept.sent (h : Kept user password w) {x : Exchange}
    (hx : Proper user password w.history x) (hquiet : ¬ (x.IsSignIn ∧ x.Answered 401)) :
    Kept user password { w with history := w.history ++ [x] } where
  asked := by
    rw [h.asked, signedOut_concat]
    exact ⟨.inl, fun hor => hor.resolve_right hquiet⟩
  bare := h.bare
  token := h.token
  orderly := orderly_concat h.orderly hx

/-- The sign-in that says there is no session. -/
theorem Kept.signedOut (h : Kept user password w) (htoken : w.session.token = .null)
    {x : Exchange} (hx : Proper user password w.history x) (hsignIn : x.IsSignIn)
    (h401 : x.Answered 401) :
    Kept user password ⟨w.session.markSessionless, w.history ++ [x]⟩ where
  asked := ⟨fun _ => signedOut_concat.mpr (.inr ⟨hsignIn, h401⟩), fun _ => rfl⟩
  bare _ := htoken
  token := .inl htoken
  orderly := orderly_concat h.orderly hx

/-- A token stored or dropped, unless it is known that there is none. -/
theorem Kept.store (h : Kept user password w) {token : Json}
    (htoken : token = .null ∨
      (w.session.sessionless = false ∧ ∃ t, t ≠ [] ∧ token = .string t)) :
    Kept user password { w with session := w.session.store token } where
  asked := h.asked
  bare hless := by
    rcases htoken with rfl | ⟨hnot, -⟩
    · rfl
    · cases hless.symm.trans hnot
  token := htoken.imp id And.right
  orderly := h.orderly

/-! ### Headers -/

/-- A token is never presented as the password is. -/
theorem bearer_ne_basic {token header : Str} (h : basic user password = .ok header) :
    "Bearer " ++ token ≠ header := by
  obtain ⟨raw, -, hraw⟩ := Sequences.bind_eq_ok.mp h
  obtain rfl : ofString "Basic " ++ base64 raw = header := Except.ok.inj hraw
  intro heq
  have hhead := congrArg (List.take 2) heq
  rw [List.take_append_of_le_length (by decide), List.take_append_of_le_length (by decide)] at hhead
  exact absurd hhead (by decide)

section Calls

variable {lib : Library} {node : List Exchange → Request → Response}

/-! ### One request -/

theorem request_ends (r : RouteRequest) (header : Option Str) :
    Ends (request node r header) w
      (fun answer w' => node w.history ⟨r, header⟩ = .answered answer ∧
        w' = { w with history := w.history ++ [⟨⟨r, header⟩, .answered answer⟩] })
      (fun _ w' => w' = { w with history := w.history ++ [⟨⟨r, header⟩, .failed⟩] }) := by
  rw [Ends, request]
  cases hnode : node w.history ⟨r, header⟩ with
  | answered answer => exact ⟨rfl, rfl⟩
  | failed => rfl

/-- A sign-in leaves a token that can be presented, or the knowledge that there is none. -/
theorem openSession_ends (hnode : TokensGiven lib node) (h : Kept user password w)
    (htoken : w.session.token = .null) (hless : w.session.sessionless = false) :
    Ends (openSession lib node ⟨some user, password⟩ user) w
      (fun token w' => Kept user password w' ∧ Added w w' [] ∧ w'.session.token = token ∧
        (token = .null → w'.session.sessionless = true))
      (fun _ w' => Kept user password w' ∧ Added w w' []) := by
  have hnot : ¬ SignedOut w.history := fun hout => by
    cases hless.symm.trans (h.asked.mpr hout)
  have hproper : ∀ x : Exchange, x.IsSignIn → Proper user password w.history x := fun x hx =>
    ⟨fun hroute => absurd hx.2 hroute, fun hout => absurd hout hnot⟩
  have hadded : ∀ (x : Exchange) (session : Session), x.IsSignIn →
      Added w ⟨session, w.history ++ [x]⟩ [] := fun x session hx =>
    ⟨[x], rfl, List.filter_eq_nil_iff.mpr (by simp [Exchange.OfRoute, hx.2])⟩
  rw [openSession]
  refine (ends_settle _ w).bind ?_ ?_
  · rintro header _ ⟨-, rfl⟩
    refine (request_ends _ _).bind ?_ ?_
    · rintro answer _ ⟨hanswer, rfl⟩
      have hsignIn : Exchange.IsSignIn ⟨⟨⟨"POST", SESSION, none, none⟩, some header⟩,
        .answered answer⟩ := ⟨rfl, rfl⟩
      have hp := hproper _ hsignIn
      by_cases h200 : answer.status = 200
      · rw [if_pos h200]
        obtain ⟨token, hne, hread⟩ := hnode _ _ _ rfl rfl hanswer h200
        rw [hread, Except.mapError, ends_settle_ok]
        have hquiet : ¬ Exchange.Answered ⟨⟨⟨"POST", SESSION, none, none⟩, some header⟩,
          .answered answer⟩ 401 := fun h401 => by have := Exchange.answered_iff.mp h401; omega
        exact ⟨(h.sent hp fun hboth => hquiet hboth.2).store (.inr ⟨hless, token, hne, rfl⟩),
          hadded _ _ hsignIn, rfl, fun h => nomatch h⟩
      · rw [if_neg h200]
        by_cases h401 : answer.status = 401
        · rw [if_pos h401]
          exact ⟨h.signedOut htoken hp hsignIn (Exchange.answered_iff.mpr h401),
            hadded _ _ hsignIn, htoken, fun _ => rfl⟩
        · rw [if_neg h401]
          exact ⟨h.sent hp fun hboth => h401 (Exchange.answered_iff.mp hboth.2),
            hadded _ _ hsignIn⟩
    · rintro _ _ rfl
      exact ⟨h.sent (hproper _ ⟨rfl, rfl⟩) fun hboth => Exchange.not_answered_failed hboth.2,
        hadded _ _ ⟨rfl, rfl⟩⟩
  · rintro _ _ ⟨-, rfl⟩
    exact ⟨h, .none rfl⟩

/-- A credential that may go out on a route. -/
def Presentable (user : Str) (password : Option Str) (w : World) (header : Str) : Prop :=
  (∃ token, w.session.token = .string token ∧ header = "Bearer " ++ token) ∨
    (w.session.sessionless = true ∧ basic user password = .ok header)

/-- The credential a request is given. -/
theorem authorization_ends (hnode : TokensGiven lib node) (h : Kept user password w) :
    Ends (authorization lib node ⟨some user, password⟩) w
      (fun header w' => Kept user password w' ∧ Added w w' [] ∧
        ∃ shown, header = some shown ∧ Presentable user password w' shown)
      (fun _ w' => Kept user password w' ∧ Added w w' []) := by
  have hbasic : ∀ {w' : World}, Kept user password w' → Added w w' [] →
      w'.session.sessionless = true →
      Ends (do return some (← ByteStream.settle (basic user password)) : Client (Option Str)) w'
        (fun header w' => Kept user password w' ∧ Added w w' [] ∧
          ∃ shown, header = some shown ∧ Presentable user password w' shown)
        (fun _ w' => Kept user password w' ∧ Added w w' []) := by
    intro w' hkept hadded hless
    refine (ends_settle _ w').bind ?_ ?_
    · rintro header _ ⟨hheader, rfl⟩
      exact ⟨hkept, hadded, header, rfl, .inr ⟨hless, hheader⟩⟩
    · rintro _ _ ⟨-, rfl⟩
      exact ⟨hkept, hadded⟩
  have hlocked : Ends (locked fun s => (s.present, s)) w
      (fun a w' => a = w.session.present ∧ w = w') fun _ _ => False := ⟨rfl, rfl⟩
  rw [authorization]
  refine hlocked.bind ?_ fun _ _ h => h.elim
  rintro _ _ ⟨rfl, rfl⟩
  rcases h.token with htoken | ⟨token, -, htoken⟩
  · rw [Session.present_null htoken]
    cases hless : w.session.sessionless with
    | true =>
        rw [if_pos rfl]
        exact hbasic h (.none rfl) hless
    | false =>
        rw [if_neg Bool.false_ne_true]
        refine (openSession_ends hnode h htoken hless).bind ?_ fun _ _ h => h
        rintro token w' ⟨hkept, hadded, rfl, hnull⟩
        rcases hkept.token with htoken' | ⟨token, hne, htoken'⟩
        · rw [htoken']
          exact hbasic hkept hadded (hnull htoken')
        · rw [htoken', if_pos (by simpa [Json.truthy] using hne)]
          exact ⟨hkept, hadded, _, rfl, .inl ⟨token, htoken', rfl⟩⟩
  · rw [Session.present_string htoken]
    exact ⟨h, .none rfl, _, rfl, .inl ⟨token, htoken, rfl⟩⟩

/-- A request of a route, with the credential it may carry. -/
theorem Kept.presented (h : Kept user password w) {r : RouteRequest} (hr : r.where_ ≠ SESSION)
    {header : Str} (hheader : Presentable user password w header) (response : Response) :
    Kept user password { w with history := w.history ++ [⟨⟨r, some header⟩, response⟩] } := by
  refine h.sent ⟨?_, fun _ hsignIn => hr hsignIn.2⟩ fun hboth => hr hboth.1.2
  rintro - header' hbasic ⟨rfl⟩
  rcases hheader with ⟨token, -, rfl⟩ | ⟨hless, -⟩
  · exact absurd rfl (bearer_ne_basic hbasic)
  · exact h.asked.mp hless

theorem added_route (w : World) {x : Exchange} (hx : x.OfRoute) :
    Added w { w with history := w.history ++ [x] } [x] :=
  ⟨[x], rfl, List.filter_eq_self.mpr (by simpa using hx)⟩

/-- One request of a route. When it was answered and a token is held, it presented one. -/
theorem attempt_ends (hnode : TokensGiven lib node) (h : Kept user password w)
    {r : RouteRequest} (hr : r.where_ ≠ SESSION) :
    Ends (attempt lib node ⟨some user, password⟩ r) w
      (fun answer w' => Kept user password w' ∧ ∃ x, Added w w' [x] ∧
        x.request.toRouteRequest = r ∧ x.response = .answered answer ∧
        (w'.session.token ≠ .null →
          ∃ token : Str, x.request.authorization = some ("Bearer " ++ token)))
      (fun _ w' => Kept user password w' ∧ ∃ own, Added w w' own ∧
        (own = [] ∨ ∃ x, own = [x] ∧ x.request.toRouteRequest = r)) := by
  rw [attempt]
  refine (authorization_ends hnode h).bind ?_ ?_
  · rintro _ w₁ ⟨hkept, hadded, header, rfl, hheader⟩
    refine (request_ends r (some header)).mono ?_ ?_
    · rintro answer _ ⟨-, rfl⟩
      refine ⟨hkept.presented hr hheader _, _, hadded.trans (added_route w₁ ?_), rfl, rfl, ?_⟩
      · exact hr
      · intro htoken
        rcases hheader with ⟨token, -, rfl⟩ | ⟨hless, -⟩
        · exact ⟨token, rfl⟩
        · exact absurd (hkept.bare hless) htoken
    · rintro _ _ rfl
      exact ⟨hkept.presented hr hheader _, _, hadded.trans (added_route w₁ hr),
        .inr ⟨_, rfl, rfl⟩⟩
  · rintro _ w₁ ⟨hkept, hadded⟩
    exact ⟨hkept, [], hadded, .inl rfl⟩

/-- **The request of a route, and its one retry.** -/
theorem send_ends (hnode : TokensGiven lib node) (h : Kept user password w)
    {r : RouteRequest} (hr : r.where_ ≠ SESSION) (allow : List ℕ) :
    Ends (send lib node ⟨some user, password⟩ r allow) w
      (fun _ w' => Kept user password w' ∧ ∃ own, Added w w' own ∧ SentOnce r own)
      (fun _ w' => Kept user password w' ∧ ∃ own, Added w w' own ∧ SentOnce r own) := by
  rw [send]
  refine (attempt_ends hnode h hr).bind ?_ ?_
  · rintro first w₁ ⟨hkept, x, hadded, hx, hfirst, hbearer⟩
    have hretried : Ends (retried lib node ⟨some user, password⟩ r first) w₁
        (fun _ w' => Kept user password w' ∧ ∃ own, Added w w' own ∧ SentOnce r own)
        (fun _ w' => Kept user password w' ∧ ∃ own, Added w w' own ∧ SentOnce r own) := by
      rw [retried]
      split
      · next h401 =>
        have hlocked : Ends (locked Session.discard) w₁
            (fun held w' => held = (!w₁.session.token.isNull) ∧
              w' = { w₁ with session := w₁.session.store .null }) fun _ _ => False := ⟨rfl, rfl⟩
        refine hlocked.bind ?_ fun _ _ h => h.elim
        rintro _ _ ⟨rfl, rfl⟩
        have hdropped : Kept user password { w₁ with session := w₁.session.store .null } :=
          hkept.store (.inl rfl)
        have hadded' : Added w { w₁ with session := w₁.session.store .null } [x] :=
          hadded.trans (.none rfl)
        split
        · next hheld =>
          -- a token is held, so the refused request presented one
          have htoken : w₁.session.token ≠ .null := fun heq => by
            rw [heq] at hheld
            cases hheld
          have hlapsed : x.Lapsed := ⟨hbearer htoken, first, hfirst, h401⟩
          refine (attempt_ends hnode hdropped hr).mono ?_ ?_
          · rintro answer w₂ ⟨hkept₂, y, hadded₂, hy, -, -⟩
            exact ⟨hkept₂, _, hadded'.trans hadded₂, .again hx hy hlapsed⟩
          · rintro _ w₂ ⟨hkept₂, own, hadded₂, hown⟩
            refine ⟨hkept₂, _, hadded'.trans hadded₂, ?_⟩
            rcases hown with rfl | ⟨y, rfl, hy⟩
            · exact .once hx
            · exact .again hx hy hlapsed
        · exact ⟨hdropped, [x], hadded', .once hx⟩
      · exact ⟨hkept, [x], hadded, .once hx⟩
    refine hretried.bind ?_ fun _ _ h => h
    rintro answer w₂ hafter
    refine (ends_settle _ w₂).mono ?_ ?_
    · rintro _ _ ⟨-, rfl⟩
      exact hafter
    · rintro _ _ ⟨-, rfl⟩
      exact hafter
  · rintro _ w₁ ⟨hkept, own, hadded, hown⟩
    refine ⟨hkept, own, hadded, ?_⟩
    rcases hown with rfl | ⟨x, rfl, hx⟩
    · exact .unsent
    · exact .once hx

/-! ### Calls -/

/-- The request a call is for, when it gets as far as making one. -/
def Call.own (lib : Library) : Call → Option RouteRequest
  | .script source declared => (Http.script lib source declared).request.toOption
  | .put namespace_ database bucket path content =>
      (Http.put lib namespace_ database bucket path content).request.toOption
  | .get namespace_ database bucket path =>
      (Http.get lib namespace_ database bucket path).request.toOption
  | .delete namespace_ database bucket path =>
      (Http.delete lib namespace_ database bucket path).request.toOption
  | .listing namespace_ database bucket =>
      (Http.listing lib namespace_ database bucket).request.toOption
  | .append namespace_ database series events =>
      (Http.append lib namespace_ database series events).request.toOption
  | .backup since => (Http.backup since).request.toOption
  | .health => (Http.health lib).request.toOption
  | .ready => (Http.ready lib).request.toOption
  | .endSession => none

/-- What a call sends on a route. -/
def SentFor (own : Option RouteRequest) (sent : List Exchange) : Prop :=
  sent = [] ∨ ∃ r, own = some r ∧ SentOnce r sent

theorem call_ends {α : Type} (hnode : TokensGiven lib node) (h : Kept user password w)
    (route : Route α) (hroute : ∀ r, route.request = .ok r → r.where_ ≠ SESSION) :
    Ends (route.call lib node ⟨some user, password⟩) w
      (fun _ w' => Kept user password w' ∧
        ∃ own, Added w w' own ∧ SentFor route.request.toOption own)
      (fun _ w' => Kept user password w' ∧
        ∃ own, Added w w' own ∧ SentFor route.request.toOption own) := by
  rw [Route.call]
  refine (ends_settle _ w).bind ?_ ?_
  · rintro r _ ⟨hr, rfl⟩
    have hsent : ∀ {w' : World}, (Kept user password w' ∧ ∃ own, Added w w' own ∧ SentOnce r own) →
        Kept user password w' ∧ ∃ own, Added w w' own ∧ SentFor route.request.toOption own := by
      rintro w' ⟨hkept, own, hadded, hown⟩
      exact ⟨hkept, own, hadded, .inr ⟨r, by rw [hr]; rfl, hown⟩⟩
    refine (send_ends hnode h (hroute r hr) route.allow).bind ?_ fun _ _ h => hsent h
    rintro answer w₁ hafter
    refine (ends_settle _ w₁).mono ?_ ?_
    · rintro _ _ ⟨-, rfl⟩
      exact hsent hafter
    · rintro _ _ ⟨-, rfl⟩
      exact hsent hafter
  · rintro _ _ ⟨-, rfl⟩
    exact ⟨h, [], .none rfl, .inl rfl⟩

/-- No route goes where sessions are. -/
theorem append_ne_session {root : String} (h : (ofString root).take 4 ≠ SESSION.take 4)
    (hlength : 4 ≤ (ofString root).length) (rest : Str) : root ++ rest ≠ SESSION := by
  intro heq
  have htake := congrArg (List.take 4) heq
  rw [List.take_append_of_le_length hlength] at htake
  exact h htake

theorem namedPath_eq_ok {python : Interpreter} {root : String} {namespace_ database name path : Str}
    (h : namedPath python root namespace_ database name = .ok path) :
    ∃ rest : Str, path = root ++ rest := by
  rw [namedPath] at h
  split at h
  · cases h
  · obtain rfl := Except.ok.inj h
    refine ⟨"/" ++ namespace_ ++ "/" ++ database ++ "/" ++ name, ?_⟩
    simp only [List.append_assoc]

theorem filePath_ne_session {python : Interpreter} {namespace_ database bucket path where_ : Str}
    (h : filePath python namespace_ database bucket path = .ok where_) : where_ ≠ SESSION := by
  obtain ⟨root, hroot, h⟩ := Sequences.bind_eq_ok.mp h
  obtain ⟨quoted, -, h⟩ := Sequences.bind_eq_ok.mp h
  obtain ⟨rest, rfl⟩ := namedPath_eq_ok hroot
  obtain rfl := Except.ok.inj h
  rw [List.append_assoc, List.append_assoc]
  exact append_ne_session (by decide) (by decide) _

theorem endSession_ends (h : Kept user password w) :
    Ends (endSession lib node) w
      (fun _ w' => Kept user password w' ∧ Added w w' [])
      (fun _ w' => Kept user password w' ∧ Added w w' []) := by
  have hlocked : Ends (locked fun s => (s.token, s.store .null)) w
      (fun token w' => token = w.session.token ∧
        { w with session := w.session.store .null } = w') fun _ _ => False := ⟨rfl, rfl⟩
  have hdropped : Kept user password { w with session := w.session.store .null } :=
    h.store (.inl rfl)
  have hgiven : ∀ (header : Str) (response : Response),
      Kept user password ⟨w.session.store .null,
        w.history ++ [⟨⟨⟨"DELETE", SESSION, none, none⟩, some header⟩, response⟩]⟩ ∧
      Added w ⟨w.session.store .null,
        w.history ++ [⟨⟨⟨"DELETE", SESSION, none, none⟩, some header⟩, response⟩]⟩ [] := by
    intro header response
    refine ⟨hdropped.sent ⟨fun hroute => absurd rfl hroute, fun _ hsignIn => ?_⟩
      fun hboth => ?_, _, rfl, rfl⟩
    · exact absurd hsignIn.1 (by decide : "DELETE" ≠ "POST")
    · exact absurd hboth.1.1 (by decide : "DELETE" ≠ "POST")
  rw [endSession]
  refine hlocked.bind ?_ fun _ _ h => h.elim
  rintro token _ ⟨-, rfl⟩
  split
  · exact ⟨hdropped, .none rfl⟩
  · refine Ends.discard ((request_ends _ _).mono ?_ ?_)
    · rintro answer _ ⟨-, rfl⟩
      exact hgiven _ _
    · rintro _ _ rfl
      exact hgiven _ _

theorem request_eq_ok {α : Type} {route : Route α} {r : RouteRequest}
    (h : route.request.toOption = some r) : route.request = .ok r := by
  cases hrequest : route.request with
  | ok r' =>
      rw [hrequest] at h
      exact congrArg Except.ok (Option.some.inj h)
  | error e =>
      rw [hrequest] at h
      cases h

/-- No call makes its request where sessions are. -/
theorem own_ne_session {call : Call} {r : RouteRequest} (h : call.own lib = some r) :
    r.where_ ≠ SESSION := by
  cases call with
  | script source declared =>
      obtain ⟨body, -, hr⟩ := Sequences.bind_eq_ok.mp (request_eq_ok h)
      obtain rfl := Except.ok.inj hr
      exact (by decide : ofString "/script" ≠ SESSION)
  | put _ _ _ _ _ | get _ _ _ _ | delete _ _ _ _ =>
      obtain ⟨where_, hwhere, hr⟩ := Sequences.bind_eq_ok.mp (request_eq_ok h)
      obtain rfl := Except.ok.inj hr
      exact filePath_ne_session hwhere
  | listing namespace_ database bucket =>
      obtain ⟨where_, hwhere, hr⟩ := Sequences.bind_eq_ok.mp (request_eq_ok h)
      obtain rfl := Except.ok.inj hr
      obtain ⟨rest, rfl⟩ := namedPath_eq_ok hwhere
      exact append_ne_session (by decide) (by decide) rest
  | append namespace_ database series events =>
      obtain ⟨batch, -, hr⟩ := Sequences.bind_eq_ok.mp (request_eq_ok h)
      obtain ⟨body, -, hr⟩ := Sequences.bind_eq_ok.mp hr
      obtain ⟨where_, hwhere, hr⟩ := Sequences.bind_eq_ok.mp hr
      obtain rfl := Except.ok.inj hr
      obtain ⟨rest, rfl⟩ := namedPath_eq_ok hwhere
      exact append_ne_session (by decide) (by decide) rest
  | backup since =>
      obtain rfl := Option.some.inj h
      cases since with
      | none => decide
      | some position => exact append_ne_session (by decide) (by decide) _
  | health =>
      obtain rfl := Option.some.inj h
      decide
  | ready =>
      obtain rfl := Option.some.inj h
      decide
  | endSession => cases h

/-- What a call leaves, and what it sends on a route. -/
theorem perform_ends (hnode : TokensGiven lib node) (h : Kept user password w) (call : Call) :
    Kept user password (call.next lib node ⟨some user, password⟩ w) ∧
      ∃ own, Added w (call.next lib node ⟨some user, password⟩ w) own ∧
        SentFor (call.own lib) own := by
  rw [Call.next, ← ends_after (P := fun w' => Kept user password w' ∧
    ∃ own, Added w w' own ∧ SentFor (call.own lib) own)]
  have hroute : ∀ {α : Type} {route : Route α}, call.own lib = route.request.toOption →
      ∀ r, route.request = .ok r → r.where_ ≠ SESSION :=
    fun hown r hr => own_ne_session (hown.trans (by rw [hr]; rfl))
  cases call with
  | script source declared =>
      exact (call_ends hnode h (Http.script lib source declared) (hroute rfl)).discard
  | put namespace_ database bucket path content =>
      exact call_ends hnode h (Http.put lib namespace_ database bucket path content) (hroute rfl)
  | get namespace_ database bucket path =>
      exact (call_ends hnode h (Http.get lib namespace_ database bucket path) (hroute rfl)).discard
  | delete namespace_ database bucket path =>
      exact call_ends hnode h (Http.delete lib namespace_ database bucket path) (hroute rfl)
  | listing namespace_ database bucket =>
      exact (call_ends hnode h (Http.listing lib namespace_ database bucket) (hroute rfl)).discard
  | append namespace_ database series events =>
      exact (call_ends hnode h (Http.append lib namespace_ database series events)
        (hroute rfl)).discard
  | backup since => exact (call_ends hnode h (Http.backup since) (hroute rfl)).discard
  | health => exact (call_ends hnode h (Http.health lib) (hroute rfl)).discard
  | ready => exact (call_ends hnode h (Http.ready lib) (hroute rfl)).discard
  | endSession =>
      refine (endSession_ends h).mono ?_ ?_
      · exact fun _ _ hafter => ⟨hafter.1, [], hafter.2, .inl rfl⟩
      · exact fun _ _ hafter => ⟨hafter.1, [], hafter.2, .inl rfl⟩

/-- The run lemma of the invariant. -/
theorem kept_run (hnode : TokensGiven lib node) (calls : List Call)
    (h : Kept user password w) :
    Kept user password (run lib node ⟨some user, password⟩ calls w) := by
  induction calls generalizing w with
  | nil => exact h
  | cons call calls ih => exact ih (perform_ends hnode h call).1

end Calls

/-- **The password is spent once.** Whatever the node answers, as long as it gives a token where it
opens a session, and whatever calls are made one at a time: the password goes out on a route only
after a sign-in was answered that there is no session, no sign-in goes out after that, and a call
sends nothing, its own request, or its own request twice when the first was answered 401 on a
token. -/
theorem password_is_spent_once (lib : Library) (node : List Exchange → Request → Response)
    (user : Str) (password : Option Str) (hnode : TokensGiven lib node) (calls : List Call) :
    (∀ before x after, (run lib node ⟨some user, password⟩ calls {}).history =
      before ++ x :: after → Proper user password before x) ∧
    ∀ before call after, calls = before ++ call :: after →
      ∃ own, Added (run lib node ⟨some user, password⟩ before {})
        (run lib node ⟨some user, password⟩ (before ++ [call]) {}) own ∧
        SentFor (call.own lib) own := by
  refine ⟨(kept_run hnode calls kept_fresh).orderly, fun before call after _ => ?_⟩
  have hbefore : Kept user password (run lib node ⟨some user, password⟩ before {}) :=
    kept_run hnode before kept_fresh
  have hrun : run lib node ⟨some user, password⟩ (before ++ [call]) {} =
      call.next lib node ⟨some user, password⟩ (run lib node ⟨some user, password⟩ before {}) := by
    rw [run, run, List.foldl_concat]
  rw [hrun]
  exact (perform_ends hnode hbefore call).2

/-- `{"token":"t"}`. -/
def ONE_TOKEN : Bytes :=
  [0x7B, 0x22, 0x74, 0x6F, 0x6B, 0x65, 0x6E, 0x22, 0x3A, 0x22, 0x74, 0x22, 0x7D]

/-- A node that opens one session, and forgets it. -/
def forgetful (history : List Exchange) (r : Request) : Response :=
  if r.where_ = SESSION ∧ history = [] then .answered ⟨200, ONE_TOKEN, []⟩
  else .answered ⟨401, [], []⟩

/-- A library that knows one document. -/
def tokenLibrary : Library where
  toInterpreter := JsonValues.asciiInterpreter 0 JsonValues.unlimited
  loads body :=
    if body = ONE_TOKEN then .ok (.object [(ofString "token", .string (ofString "t"))])
    else .error (.valueError "Expecting value: line 1 column 1 (char 0)")
  platform := ⟨fun _ => [], 4⟩

/-- Where `forgetful` opens a session, the library reads the token. -/
theorem forgetful_tokensGiven : TokensGiven tokenLibrary forgetful := by
  intro history r answer _ _ hanswer hopened
  rw [forgetful] at hanswer
  split at hanswer
  · obtain rfl := Response.answered.inj hanswer
    exact ⟨ofString "t", by decide, rfl⟩
  · obtain rfl := Response.answered.inj hanswer
    exact absurd hopened (by decide)

theorem password_is_spent_once_forgetful :
    ∃ own, Added {} (run tokenLibrary forgetful ⟨some (ofString "ada"), none⟩ [.health] {}) own ∧
      SentFor (some ⟨"GET", ofString "/health", none, none⟩) own :=
  (password_is_spent_once tokenLibrary forgetful (ofString "ada") none forgetful_tokensGiven
    [.health]).2 [] .health [] rfl

end Http

end TessariDB
