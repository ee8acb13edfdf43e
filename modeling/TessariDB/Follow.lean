import Mathlib.Data.List.Chain
import TessariDB.Conversation

/-!
# Following a Redirect

`_follow.py` and `Connection.execute`: a redirect is followed to the node it names, at most
three times. On each new connection the node is asked who it is, the tenancy of the caller's
session is selected again, and only then is the script sent.

A `Visit` is what one redirect that was followed came to: the redirect, the socket it was
followed over, and what was said there.

## Main results

* `Follow.visit_spec`: what is said on one new connection.
* `Follow.followLoop_spec`: what the whole loop comes to, whatever the nodes do.
* `following_is_safe`: the bounds, the checks before the script is sent, and the cleanup.
-/

namespace TessariDB

open ByteCodec ByteStream Utf8

namespace Follow

/-! ### The code -/

def MOST_HOPS : ℕ := 3

def CONTEXT : Str := ofString "RETURN session::context();"

/-- `_PLAIN.fullmatch`: a letter or an underscore, then letters, digits and underscores. -/
def plain (name : Str) : Bool :=
  let letter := fun c : CodePoint =>
    (0x41 ≤ c.val && c.val ≤ 0x5A) || (0x61 ≤ c.val && c.val ≤ 0x7A) || c.val == 0x5F
  match name with
  | [] => false
  | c :: rest => letter c && rest.all fun c => letter c || (0x30 ≤ c.val && c.val ≤ 0x39)

def staying (reply : Reply) : Except Raised Reply :=
  if reply.redirect.isSome then
    .error (.malformed "a node redirected a statement that runs anywhere")
  else
    .ok reply

/-- `_answered`. -/
def answered (script : Str) : Client Reply := do
  let reply ← Connection.ask script []
  Connection.attempt (staying reply)

def contextOf (reply : Reply) : Except Raised (List (Str × Value)) :=
  match reply.outcomes.getLast? with
  | some (.valueOutcome _ (.object fields)) => .ok fields
  | _ => .error (.malformed "session::context() answers one object")

/-- `_context`: what `session::context()` answers, without following. -/
def context : Client (List (Str × Value)) := do
  let reply ← answered CONTEXT
  Connection.attempt (contextOf reply)

/-- One turn of the loop of `_selection`. -/
def clause (fields : List (Str × Value)) (word key : String) : Except Raised Str :=
  match Dict.get? fields (ofString key) with
  | some (.text name) =>
      if plain name then .ok (ofString "USE " ++ (ofString word ++ (ofString " " ++
        (name ++ ofString "; "))))
      else .error (.notFollowable name)
  | _ => .ok []

/-- The `USE` that selects a tenancy again, or empty. -/
def selectionOf (fields : List (Str × Value)) : Except Raised Str := do
  let inNamespace ← clause fields "NAMESPACE" "namespace"
  let inDatabase ← clause fields "DATABASE" "database"
  return inNamespace ++ inDatabase

/-- `_selection`. -/
def selection : Client Str := do
  let fields ← context
  Connection.attempt (selectionOf fields)

/-- Whether `session::context()` names the node of a redirect. -/
def names (redirect : Elsewhere) (fields : List (Str × Value)) : Prop :=
  match Dict.get? fields (ofString "node") with
  | some (.uuid node) => node = redirect.node
  | _ => False

instance (redirect : Elsewhere) (fields : List (Str × Value)) :
    Decidable (names redirect fields) := by
  unfold names
  split <;> infer_instance

/-- The check of a node, raising where it is another. -/
def vet (redirect : Elsewhere) (fields : List (Str × Value)) : Except Raised Unit :=
  if names redirect fields then .ok () else .error (.wrongNode redirect.node)

/-- The `try` block of `followed`, on the new connection. -/
def visit (script : Str) (ps : List (Str × Value)) (selecting : Str) (redirect : Elsewhere) :
    Client Reply := do
  let fields ← context
  Connection.attempt (vet redirect fields)
  if selecting ≠ [] then
    discard (answered selecting)
  Connection.ask script ps

/-- `_move_to`. -/
def moveTo (there : Connection) (c : Connection) (w : World) : Connection × World :=
  ({ c with sock := there.sock, minor := there.minor, owed := there.owed }, w.close c.sock)

/-- The loop of `followed`, with the hops that are left. -/
def followLoop (script : Str) (ps : List (Str × Value)) (selecting : Str) :
    ℕ → Elsewhere → ℕ → Client Reply
  | 0, _, _ => throw (.redirectLoop MOST_HOPS)
  | left + 1, redirect, floor => fun (c, w) =>
      if redirect.epoch < floor then
        .error (.staleRedirect redirect.epoch floor) (c, w)
      else
        match Connection.connect redirect.endpoint c.user c.password w with
        | .error e w => .error e (c, w)
        | .ok there w =>
            match visit script ps selecting redirect (there, w) with
            | .error e (there, w) => .error e (c, w.close there.sock)
            | .ok reply (there, w) =>
                match reply.redirect with
                | none =>
                    match redirect.settlement with
                    | .settled => .ok reply (moveTo there c w)
                    | .transient => .ok reply (c, w.close there.sock)
                | some next =>
                    followLoop script ps selecting left next redirect.epoch
                      (c, w.close there.sock)

/-- Send `script` where `first` says, and on, until something answers. -/
def followed (script : Str) (ps : List (Str × Value)) (first : Elsewhere) : Client Reply := do
  let selecting ← selection
  followLoop script ps selecting MOST_HOPS first 0

end Follow

/-- Run a script, following redirects. -/
def Connection.execute (script : Str) (ps : List (Str × Value)) : Client Reply := do
  let reply ← ask script ps
  match reply.redirect with
  | none => return reply
  | some redirect => Follow.followed script ps redirect

namespace Follow

/-! ### One visit -/

section Steps

variable {c : Connection} {w : World} {requests replies : List (ℕ × Bytes)}

theorem answered_step (h : InStep (w.sockets c.sock) requests replies) (script : Str) :
    Stepped c w script [] requests replies (fun reply a => reply = a ∧ reply.redirect = none)
      (answered script (c, w)) := by
  refine ((Connection.ask_step h script []).bind_attempt staying).mono ?_
  rintro reply a ⟨_, rfl, hstaying⟩
  rw [staying] at hstaying
  split at hstaying
  · cases hstaying
  · next hnone => exact ⟨Except.ok.inj hstaying, by simpa using hnone⟩

theorem context_step (h : InStep (w.sockets c.sock) requests replies) :
    Stepped c w CONTEXT [] requests replies (fun reply fields => contextOf reply = .ok fields)
      (context (c, w)) := by
  refine ((answered_step h CONTEXT).bind_attempt contextOf).mono ?_
  rintro reply fields ⟨_, ⟨rfl, -⟩, hfields⟩
  exact hfields

end Steps

/-- What is asked on a new connection, in order. -/
def statements (script : Str) (ps : List (Str × Value)) (selecting : Str) :
    List (Str × List (Str × Value)) :=
  (CONTEXT, []) :: ((if selecting = [] then [] else [(selecting, [])]) ++ [(script, ps)])

/-- The first reply names the node of the redirect, and the second answers the selection where
there is one. -/
structure Vetted (redirect : Elsewhere) (selecting : Str) (replies : List (ℕ × Bytes)) : Prop where
  named : ∃ k b reply fields, replies[0]? = some (k, b) ∧
    Connection.replyOf k b = .ok reply ∧ contextOf reply = .ok fields ∧
    Dict.get? fields (ofString "node") = some (.uuid redirect.node)
  selected : selecting ≠ [] → ∃ k b reply, replies[1]? = some (k, b) ∧
    Connection.replyOf k b = .ok reply ∧ reply.redirect = none

theorem Vetted.append {redirect : Elsewhere} {selecting : Str} {replies : List (ℕ × Bytes)}
    (h : Vetted redirect selecting replies) (more : List (ℕ × Bytes)) :
    Vetted redirect selecting (replies ++ more) where
  named := by
    obtain ⟨k, b, reply, fields, hget, hrest⟩ := h.named
    refine ⟨k, b, reply, fields, ?_, hrest⟩
    rw [List.getElem?_append_left (List.getElem?_eq_some_iff.mp hget).1, hget]
  selected hsel := by
    obtain ⟨k, b, reply, hget, hrest⟩ := h.selected hsel
    refine ⟨k, b, reply, ?_, hrest⟩
    rw [List.getElem?_append_left (List.getElem?_eq_some_iff.mp hget).1, hget]

theorem get?_of_names {redirect : Elsewhere} {fields : List (Str × Value)}
    (h : names redirect fields) :
    Dict.get? fields (ofString "node") = some (.uuid redirect.node) := by
  rw [names] at h
  split at h
  · next hnode => rw [hnode, h]
  · exact h.elim

theorem statements_length (script : Str) (ps : List (Str × Value)) (selecting : Str) :
    2 ≤ (statements script ps selecting).length := by
  simp only [statements, List.length_cons, List.length_append, List.length_nil]
  omega

theorem sock_of_spent {c c' : Connection} (h : c' = c ∨ c' = c.spent) : c'.sock = c.sock := by
  rcases h with rfl | rfl <;> rfl

/-- What a part of a visit comes to, on a connection that has already presented itself: it
fails, or the last reply answers the script. -/
def Visited (there : Connection) (w : World) (s : Socket) (requests replies : List (ℕ × Bytes))
    (r : EStateM.Result Raised (Connection × World) Reply) : Prop :=
  (∃ e there', there'.sock = there.sock ∧ r = .error e (there', w.put there.sock s)) ∨
    ∃ reply k b, r = .ok reply (there.spent, w.put there.sock s) ∧
      InStep s requests replies ∧ replies.getLast? = some (k, b) ∧
      Connection.replyOf k b = .ok reply

/-- The script itself, once everything before it was answered. -/
theorem script_step {there : Connection} {w : World} {s : Socket}
    {requests replies : List (ℕ × Bytes)} (h : InStep s requests replies) (script : Str)
    (ps : List (Str × Value)) :
    ∃ s' sent received,
      Conversed s' (requests ++ sent) (replies ++ received) ∧
      Asked none [(script, ps)] sent ∧
      Visited there w s' (requests ++ sent) (replies ++ received)
        (Connection.ask script ps (there.spent, w.put there.sock s)) := by
  have hself : InStep ((w.put there.sock s).sockets there.spent.sock) requests replies := by
    rwa [Connection.spent_sock, World.put_sockets_self]
  have hstep := Connection.ask_step hself script ps
  generalize Connection.ask script ps (there.spent, w.put there.sock s) = r at hstep
  cases hstep with
  | failed e c' s' sent received hc' hsent hs' _ =>
      rw [Connection.spent_credentials] at hsent
      refine ⟨s', sent, received, hs', hsent,
        .inl ⟨e, c', sock_of_spent (c := there.spent) hc', ?_⟩⟩
      rw [Connection.spent_sock, World.put_put]
  | answered body k b s' reply _ hbody hs' hreply ha =>
      rw [Connection.spent_credentials] at hbody
      refine ⟨s', _, _, hs'.conversed, .cons hbody (.nil _ _), .inr ⟨reply, k, b, ?_, hs',
        List.getLast?_concat, hreply⟩⟩
      rw [Connection.spent_spent, Connection.spent_sock, World.put_put, ha]

/-- The selection and the script, once the node was named. -/
theorem selected_step {there : Connection} {w : World} {s : Socket} {redirect : Elsewhere}
    {body b : Bytes} {k : ℕ} {reply : Reply} {fields : List (Str × Value)}
    (h : InStep s [(Frames.REQUEST, body)] [(k, b)])
    (hreply : Connection.replyOf k b = .ok reply) (hfields : contextOf reply = .ok fields)
    (hnames : names redirect fields) (script : Str) (ps : List (Str × Value)) (selecting : Str) :
    ∃ s' sent received,
      Conversed s' ((Frames.REQUEST, body) :: sent) ((k, b) :: received) ∧
      Asked none ((if selecting = [] then [] else [(selecting, [])]) ++ [(script, ps)]) sent ∧
      (((Frames.REQUEST, body) :: sent).length = (statements script ps selecting).length →
        Vetted redirect selecting ((k, b) :: received)) ∧
      Visited there w s' ((Frames.REQUEST, body) :: sent) ((k, b) :: received)
        ((if selecting ≠ [] then
            discard (answered selecting) >>= fun _ => Connection.ask script ps
          else Connection.ask script ps : Client Reply) (there.spent, w.put there.sock s)) := by
  by_cases hsel : selecting = []
  · have hvetted : Vetted redirect selecting [(k, b)] :=
      ⟨⟨k, b, reply, fields, rfl, hreply, hfields, get?_of_names hnames⟩,
        fun hne => absurd hsel hne⟩
    obtain ⟨s', sent, received, hs', hsent, hrun⟩ := @script_step there w _ _ _ h script ps
    rw [if_pos hsel, if_neg (not_not.mpr hsel)]
    exact ⟨s', sent, received, hs', hsent, fun _ => hvetted.append received, hrun⟩
  rw [if_neg hsel, if_pos hsel]
  have hself : InStep ((w.put there.sock s).sockets there.spent.sock)
      [(Frames.REQUEST, body)] [(k, b)] := by
    rwa [Connection.spent_sock, World.put_sockets_self]
  have hstep := answered_step hself selecting
  generalize hselected : answered selecting (there.spent, w.put there.sock s) = r at hstep
  cases hstep with
  | failed e c' s' sent received hc' hsent hs' _ =>
      rw [Connection.spent_credentials] at hsent
      rw [Connection.spent_sock, World.put_put] at hselected
      refine ⟨s', sent, received, hs', hsent.append _, fun hlen => ?_,
        .inl ⟨e, c', sock_of_spent (c := there.spent) hc',
          bind_of_error (discard_of_error hselected) _⟩⟩
      have hle : sent.length ≤ 1 := hsent.length_le
      rw [statements, if_neg hsel] at hlen
      simp only [List.length_append, List.length_cons, List.length_nil] at hlen
      omega
  | answered body₂ k₂ b₂ s₂ reply₂ a hbody₂ hs₂ hreply₂ ha =>
      rw [Connection.spent_credentials] at hbody₂
      rw [Connection.spent_spent, Connection.spent_sock, World.put_put] at hselected
      have hvetted : Vetted redirect selecting [(k, b), (k₂, b₂)] :=
        ⟨⟨k, b, reply, fields, rfl, hreply, hfields, get?_of_names hnames⟩,
          fun _ => ⟨k₂, b₂, reply₂, rfl, hreply₂, ha.2⟩⟩
      obtain ⟨s', sent, received, hs', hsent, hrun⟩ :=
        @script_step there w _ _ _ hs₂ script ps
      rw [bind_of_ok (discard_of_ok hselected)]
      exact ⟨s', _, _, hs', .cons hbody₂ hsent, fun _ => hvetted.append received, hrun⟩

theorem visit_spec {there : Connection} {w : World} (h : InStep (w.sockets there.sock) [] [])
    (script : Str) (ps : List (Str × Value)) (selecting : Str) (redirect : Elsewhere) :
    ∃ s' requests replies,
      Conversed s' requests replies ∧
      Asked there.credentials (statements script ps selecting) requests ∧
      (requests.length = (statements script ps selecting).length →
        Vetted redirect selecting replies) ∧
      Visited there w s' requests replies
        (visit script ps selecting redirect (there, w)) := by
  have hvisit : visit script ps selecting redirect (there, w) =
      (context >>= fun fields => Connection.attempt (vet redirect fields) >>= fun _ =>
        if selecting ≠ [] then
          discard (answered selecting) >>= fun _ => Connection.ask script ps
        else Connection.ask script ps : Client Reply) (there, w) := rfl
  rw [hvisit]
  have hstep := context_step h
  have hlong := statements_length script ps selecting
  generalize hcontext : context (there, w) = r at hstep
  cases hstep with
  | failed e c' s' sent received hc' hsent hs' _ =>
      refine ⟨s', sent, received, hs', hsent.append _, fun hlen => ?_,
        .inl ⟨e, c', sock_of_spent hc', bind_of_error hcontext _⟩⟩
      have hle : sent.length ≤ 1 := hsent.length_le
      omega
  | answered body k b s₁ reply fields hbody hs₁ hreply hfields =>
      rw [bind_of_ok hcontext]
      by_cases hnames : names redirect fields
      · rw [vet, if_pos hnames, Connection.attempt_bind]
        obtain ⟨s', sent, received, hs', hsent, hvetted, hrun⟩ := @selected_step there w _ _ _ _ _
          _ _ hs₁ hreply hfields hnames script ps selecting
        exact ⟨s', _, _, hs', .cons hbody hsent, hvetted, hrun⟩
      · rw [vet, if_neg hnames, Connection.attempt_error_bind]
        exact ⟨s₁, _, _, hs₁.conversed, .cons hbody (.nil _ _),
          fun hlen => absurd hlen (Nat.ne_of_lt hlong), .inl ⟨_, there.spent, rfl, rfl⟩⟩

/-! ### The whole loop -/

end Follow

/-- What became of a redirect that was followed. -/
structure Visit where
  redirect : Elsewhere
  /-- The socket it was followed over. -/
  sock : ℕ
  requests : List (ℕ × Bytes)
  replies : List (ℕ × Bytes)

/-- On the socket of a visit, nothing was sent but the statements in their order, and the script
last, after the node had been vetted. -/
structure Visit.Safe (script : Str) (ps : List (Str × Value)) (selecting : Str)
    (credentials : Option (Str × Str)) (v : Visit) (s : Socket) : Prop where
  conversed : Conversed s v.requests v.replies
  asked : Asked credentials (Follow.statements script ps selecting) v.requests
  vetted : v.requests.length = (Follow.statements script ps selecting).length →
    Follow.Vetted v.redirect selecting v.replies

/-- The last reply of a visit is the redirect of the next. -/
def Visit.Redirects (v v' : Visit) : Prop :=
  ∃ k b reply, v.replies.getLast? = some (k, b) ∧ Connection.replyOf k b = .ok reply ∧
    reply.redirect = some v'.redirect

/-- The credentials a new connection of the same user owes. -/
def Connection.login (c : Connection) : Option (Str × Str) :=
  presented (c.user.map fun user => (user, c.password))

/-- A new connection owes the credentials of its user. -/
theorem Connection.credentials_fresh (c : Connection) (sock minor : ℕ) :
    credentials ⟨sock, c.user, c.password, c.user.isSome, false, minor⟩ = c.login := by
  rcases c with ⟨_, - | user, password, _, _, _⟩ <;> rfl

namespace Follow

/-- How a loop ends for the connection it was called on: it stays where it was, and every
connection opened is closed; or it moves to the last one. -/
inductive Ended (c : Connection) (w : World) (visits : List Visit)
    (r : EStateM.Result Raised (Connection × World) Reply) : Prop
  | stayed (hc : (after r).1 = c) (hown : (after r).2.sockets c.sock = w.sockets c.sock)
      (hclosed : ∀ v ∈ visits, ((after r).2.sockets v.sock).closed = true)
  | moved (reply : Reply) (v : Visit) (minor : ℕ) (hr : outcome r = .ok reply)
      (hlast : visits.getLast? = some v)
      (hc : (after r).1 = { c with sock := v.sock, minor, owed := false })
      (hown : (after r).2.sockets c.sock = (w.sockets c.sock).close)
      (hsent : v.requests ≠ [])
      (hstep : InStep ((after r).2.sockets v.sock) v.requests v.replies)
      (hclosed : ∀ v ∈ visits.dropLast, ((after r).2.sockets v.sock).closed = true)

/-- What a loop comes to. -/
structure Trail (script : Str) (ps : List (Str × Value)) (selecting : Str) (c : Connection)
    (w : World) (left : ℕ) (redirect : Elsewhere) (floor : ℕ) (visits : List Visit)
    (r : EStateM.Result Raised (Connection × World) Reply) : Prop where
  few : visits.length ≤ left
  first : ∀ v ∈ visits.head?, v.redirect = redirect ∧ floor ≤ redirect.epoch
  chain : visits.IsChain fun v v' => v.redirect.epoch ≤ v'.redirect.epoch ∧ v.Redirects v'
  opened : (after r).2.opened = w.opened + visits.length
  socks : visits.map Visit.sock = List.range' w.opened visits.length
  kept : ∀ i < w.opened, i ≠ c.sock → (after r).2.sockets i = w.sockets i
  safe : ∀ v ∈ visits, v.Safe script ps selecting c.login ((after r).2.sockets v.sock)
  ended : Ended c w visits r

/-- Where a loop that got an answer leaves the connection: on the socket of the last visit, which
answered, if the redirect to it was settled, and as it was if it was transient. -/
def Landed (c : Connection) (visits : List Visit)
    (r : EStateM.Result Raised (Connection × World) Reply) : Prop :=
  ∀ reply, outcome r = .ok reply → ∃ v k b, visits.getLast? = some v ∧
    v.replies.getLast? = some (k, b) ∧ Connection.replyOf k b = .ok reply ∧
    reply.redirect = none ∧
    (v.redirect.settlement = .settled ∧ (after r).1.sock = v.sock ∨
      v.redirect.settlement = .transient ∧ (after r).1 = c)

section Trail

variable {script : Str} {ps : List (Str × Value)} {selecting : Str} {c : Connection} {w : World}
variable {left floor : ℕ} {redirect : Elsewhere}
variable {r : EStateM.Result Raised (Connection × World) Reply}

/-- Nothing was dialled. -/
theorem Trail.nil (hc : (after r).1 = c) (hsockets : (after r).2.sockets = w.sockets)
    (hopened : (after r).2.opened = w.opened) :
    Trail script ps selecting c w left redirect floor [] r where
  few := Nat.zero_le _
  first := nofun
  chain := .nil
  opened := hopened
  socks := rfl
  kept i _ _ := congrFun hsockets i
  safe := nofun
  ended := .stayed hc (congrFun hsockets _) nofun

/-- One redirect was followed, and no other after it. -/
theorem Trail.single {v : Visit} (hv : v.redirect = redirect ∧ v.sock = w.opened)
    (hfloor : floor ≤ redirect.epoch) (hopened : (after r).2.opened = w.opened + 1)
    (hkept : ∀ i < w.opened, i ≠ c.sock → (after r).2.sockets i = w.sockets i)
    (hsafe : v.Safe script ps selecting c.login ((after r).2.sockets v.sock))
    (hended : Ended c w [v] r) :
    Trail script ps selecting c w (left + 1) redirect floor [v] r where
  few := Nat.succ_le_succ (Nat.zero_le _)
  first := by
    rintro _ ⟨⟩
    exact ⟨hv.1, hfloor⟩
  chain := .singleton v
  opened := hopened
  socks := congrArg (fun i => [i]) hv.2
  kept := hkept
  safe := List.forall_mem_singleton.mpr hsafe
  ended := hended

variable {s : Socket} {requests replies : List (ℕ × Bytes)}

/-- The redirect led to a connection that was closed again. -/
theorem Trail.shut (hown : c.sock < w.opened) (hfloor : floor ≤ redirect.epoch)
    (hc : (after r).1 = c) (hopened : (after r).2.opened = w.opened + 1)
    (hsockets : (after r).2.sockets = Function.update w.sockets w.opened s)
    (hclosed : s.closed = true)
    (hsafe : (Visit.mk redirect w.opened requests replies).Safe script ps selecting c.login s) :
    Trail script ps selecting c w (left + 1) redirect floor
      [⟨redirect, w.opened, requests, replies⟩] r := by
  have hnew : (after r).2.sockets w.opened = s := by rw [hsockets, Function.update_self]
  have hold : ∀ i < w.opened, (after r).2.sockets i = w.sockets i := fun i hi => by
    rw [hsockets, Function.update_of_ne (Nat.ne_of_lt hi)]
  exact .single ⟨rfl, rfl⟩ hfloor hopened (fun i hi _ => hold i hi) (hnew ▸ hsafe)
    (.stayed hc (hold _ hown) (List.forall_mem_singleton.mpr (hnew ▸ hclosed)))

/-- The redirect was settled, and the connection moved to where it led. -/
theorem Trail.settled {reply : Reply} {minor k : ℕ} {b : Bytes} (hown : c.sock < w.opened)
    (hfloor : floor ≤ redirect.epoch) (hr : outcome r = .ok reply)
    (hc : (after r).1 = { c with sock := w.opened, minor, owed := false })
    (hopened : (after r).2.opened = w.opened + 1)
    (hsockets : (after r).2.sockets = Function.update (Function.update w.sockets w.opened s)
      c.sock (w.sockets c.sock).close)
    (hstep : InStep s requests replies) (hlast : replies.getLast? = some (k, b))
    (hsafe : (Visit.mk redirect w.opened requests replies).Safe script ps selecting c.login s) :
    Trail script ps selecting c w (left + 1) redirect floor
      [⟨redirect, w.opened, requests, replies⟩] r := by
  have hnew : (after r).2.sockets w.opened = s := by
    rw [hsockets, Function.update_of_ne (Nat.ne_of_gt hown), Function.update_self]
  have hsent : requests ≠ [] := by
    rintro rfl
    rw [List.length_eq_zero_iff.mp hstep.paired] at hlast
    cases hlast
  refine .single ⟨rfl, rfl⟩ hfloor hopened (fun i hi hne => ?_) (hnew ▸ hsafe)
    (.moved reply _ minor hr rfl hc ?_ hsent (hnew ▸ hstep) (List.forall_mem_nil _))
  · rw [hsockets, Function.update_of_ne hne, Function.update_of_ne (Nat.ne_of_lt hi)]
  · rw [hsockets, Function.update_self]

/-- A redirect was followed to another one. -/
theorem Trail.cons {u : World} {next : Elsewhere} {visits : List Visit} (hown : c.sock < w.opened)
    (hfloor : floor ≤ redirect.epoch) (hopened : u.opened = w.opened + 1)
    (hsockets : u.sockets = Function.update w.sockets w.opened s) (hclosed : s.closed = true)
    (hsafe : (Visit.mk redirect w.opened requests replies).Safe script ps selecting c.login s)
    (hnext : ∀ v' : Visit, v'.redirect = next →
      (Visit.mk redirect w.opened requests replies).Redirects v')
    (h : Trail script ps selecting c u left next redirect.epoch visits r) :
    Trail script ps selecting c w (left + 1) redirect floor
      (⟨redirect, w.opened, requests, replies⟩ :: visits) r := by
  have hold : ∀ i < w.opened, u.sockets i = w.sockets i := fun i hi => by
    rw [hsockets, Function.update_of_ne (Nat.ne_of_lt hi)]
  have hnew : (after r).2.sockets w.opened = s := by
    rw [h.kept w.opened (by omega) (by omega), hsockets, Function.update_self]
  have hsame : u.sockets c.sock = w.sockets c.sock := hold c.sock hown
  refine ⟨Nat.succ_le_succ h.few, ?_, ?_, ?_, ?_, ?_, ?_, ?_⟩
  · rintro _ ⟨⟩
    exact ⟨rfl, hfloor⟩
  · refine List.isChain_cons.mpr ⟨fun v' hv' => ?_, h.chain⟩
    obtain ⟨hredirect, hepoch⟩ := h.first v' hv'
    exact ⟨hredirect ▸ hepoch, hnext v' hredirect⟩
  · rw [h.opened, hopened, List.length_cons]
    omega
  · rw [List.map_cons, h.socks, hopened]
    rfl
  · intro i hi hne
    rw [h.kept i (by omega) hne, hold i hi]
  · exact List.forall_mem_cons.mpr ⟨hnew ▸ hsafe, h.safe⟩
  · cases h.ended with
    | stayed hc hown hclosed' =>
        exact .stayed hc (hown.trans hsame) (List.forall_mem_cons.mpr ⟨hnew ▸ hclosed, hclosed'⟩)
    | moved reply v' minor hr hlast hc hown hsent hstep hclosed' =>
        have hne : visits ≠ [] := by
          rintro rfl
          cases hlast
        refine .moved reply v' minor hr ?_ hc (by rw [hown, hsame]) hsent hstep ?_
        · rw [List.getLast?_cons_of_ne_nil hne, hlast]
        · rw [List.dropLast_cons_of_ne_nil hne]
          exact List.forall_mem_cons.mpr ⟨hnew ▸ hclosed, hclosed'⟩

/-- The sockets of the visits are those opened meanwhile. -/
theorem Trail.mem_socks {visits : List Visit}
    (h : Trail script ps selecting c w left redirect floor visits r) {i : ℕ} :
    i ∈ visits.map Visit.sock ↔ w.opened ≤ i ∧ i < (after r).2.opened := by
  rw [h.socks, h.opened, List.mem_range'_1]

/-- Nothing was sent on the caller's own socket. -/
theorem Trail.own_sent {visits : List Visit}
    (h : Trail script ps selecting c w left redirect floor visits r) :
    ((after r).2.sockets c.sock).sent = (w.sockets c.sock).sent := by
  cases h.ended with
  | stayed _ hown _ => exact congrArg Socket.sent hown
  | moved _ _ _ _ _ _ hown _ _ _ => exact (congrArg Socket.sent hown).trans rfl

/-- A loop that raised got no answer. -/
theorem landed_of_error {visits : List Visit} {e : Raised} (h : outcome r = .error e) :
    Landed c visits r := fun _ hreply => by
  rw [h] at hreply
  cases hreply

/-- What comes before the last visit does not matter. -/
theorem Landed.cons {visits : List Visit} (h : Landed c visits r) (v : Visit) :
    Landed c (v :: visits) r := by
  intro reply hreply
  obtain ⟨v', k, b, hlast, hrest⟩ := h reply hreply
  have hne : visits ≠ [] := by
    rintro rfl
    cases hlast
  exact ⟨v', k, b, by rw [List.getLast?_cons_of_ne_nil hne, hlast], hrest⟩

end Trail

/-- Nothing is asked of a node that did not greet. -/
theorem safe_of_ungreeted (script : Str) (ps : List (Str × Value)) (selecting : Str)
    (credentials : Option (Str × Str)) (redirect : Elsewhere) (sock : ℕ) {s : Socket}
    (h : Conversed s [] []) :
    (Visit.mk redirect sock [] []).Safe script ps selecting credentials s := by
  refine ⟨h, .nil _ _, fun hlen => ?_⟩
  have hlong := statements_length script ps selecting
  rw [← hlen] at hlong
  exact absurd hlong (Nat.not_succ_le_zero 1)

/-- **What following comes to.** -/
theorem followLoop_spec (script : Str) (ps : List (Str × Value)) (selecting : Str) (left : ℕ)
    (redirect : Elsewhere) (floor : ℕ) {c : Connection} {w : World} (hown : c.sock < w.opened) :
    ∃ visits, Trail script ps selecting c w left redirect floor visits
        (followLoop script ps selecting left redirect floor (c, w)) ∧
      Landed c visits (followLoop script ps selecting left redirect floor (c, w)) := by
  induction left generalizing redirect floor w with
  | zero => exact ⟨[], .nil rfl rfl rfl, landed_of_error rfl⟩
  | succ left ih =>
      rw [followLoop]
      dsimp only
      split
      · exact ⟨[], .nil rfl rfl rfl, landed_of_error rfl⟩
      next hstale =>
      have hfloor : floor ≤ redirect.epoch := Nat.not_lt.mp hstale
      rcases Connection.connect_spec redirect.endpoint c.user c.password w with
        ⟨e, w', hrun, hsockets, hopened⟩ | ⟨e, w', s, hrun, hsockets, hopened, hclosed, hs⟩ |
        ⟨minor, w', s, hrun, hsockets, hopened, hs⟩
      · rw [hrun]
        exact ⟨[], .nil rfl hsockets hopened, landed_of_error rfl⟩
      · rw [hrun]
        exact ⟨_, .shut hown hfloor rfl hopened hsockets hclosed
          (safe_of_ungreeted script ps selecting _ _ _ hs), landed_of_error rfl⟩
      · rw [hrun]
        dsimp only
        generalize hthere : Connection.mk w.opened c.user c.password c.user.isSome false minor =
          there
        have hsock : there.sock = w.opened := by rw [← hthere]
        have hfresh : InStep (w'.sockets there.sock) [] [] := by
          rwa [hsock, hsockets, Function.update_self]
        have hlogin : there.credentials = c.login := by rw [← hthere, c.credentials_fresh]
        obtain ⟨s', requests, replies, hs', hasked, hvetted, hvisit⟩ :=
          visit_spec hfresh script ps selecting redirect
        rw [hlogin] at hasked
        have hlive : (w'.put there.sock s').sockets =
            Function.update w.sockets w.opened s' := by
          rw [World.put, hsock, hsockets, Function.update_idem]
        have hshut : ((w'.put there.sock s').close there.sock).sockets =
            Function.update w.sockets w.opened s'.close := by
          rw [World.close, World.put_put, World.put_sockets_self, World.put, hsock, hsockets,
            Function.update_idem]
        have hsafe : (Visit.mk redirect w.opened requests replies).Safe script ps selecting
            c.login s' := ⟨hs', hasked, hvetted⟩
        have hsafe' : (Visit.mk redirect w.opened requests replies).Safe script ps selecting
            c.login s'.close := ⟨⟨hs'.sent, hs'.taken⟩, hasked, hvetted⟩
        rcases hvisit with ⟨e, there', hsock', hvisit⟩ | ⟨reply, k, b, hvisit, hstep, hlast, hreply⟩
        · rw [hvisit]
          dsimp only
          rw [hsock']
          exact ⟨_, .shut hown hfloor rfl hopened hshut rfl hsafe', landed_of_error rfl⟩
        · rw [hvisit]
          dsimp only
          cases hnext : reply.redirect with
          | none =>
              cases hsettlement : redirect.settlement with
              | settled =>
                  have howed : there.spent.owed = false := by
                    rw [← hthere]
                    cases c.user <;> rfl
                  have hmoved : (moveTo there.spent c (w'.put there.sock s')).1 =
                      { c with sock := w.opened, minor := there.minor, owed := false } := by
                    rw [moveTo, howed, Connection.spent_sock, hsock]
                    rfl
                  refine ⟨_, .settled hown hfloor rfl hmoved hopened ?_ hstep hlast hsafe, ?_⟩
                  case refine_2 =>
                    rintro _ ⟨⟩
                    exact ⟨_, k, b, rfl, hlast, hreply, hnext,
                      .inl ⟨hsettlement, congrArg Connection.sock hmoved⟩⟩
                  change ((w'.put there.sock s').close c.sock).sockets = _
                  rw [World.close, hlive, Function.update_of_ne (Nat.ne_of_lt hown)]
                  exact congrArg (Function.update · _ _) hlive
              | transient =>
                  refine ⟨_, .shut hown hfloor rfl hopened hshut rfl hsafe', ?_⟩
                  rintro _ ⟨⟩
                  exact ⟨_, k, b, rfl, hlast, hreply, hnext, .inr ⟨hsettlement, rfl⟩⟩
          | some next =>
              obtain ⟨visits, htrail, hlanded⟩ := ih next redirect.epoch
                (w := (w'.put there.sock s').close there.sock) (hopened ▸ Nat.lt_succ_of_lt hown)
              exact ⟨_, .cons (u := (w'.put there.sock s').close there.sock) hown hfloor hopened
                hshut rfl hsafe'
                (fun v' hv' => ⟨k, b, reply, hlast, hreply, hv' ▸ hnext⟩) htrail, hlanded.cons _⟩

/-! ### A whole call -/

/-- Asking for the tenancy is asking one statement. -/
theorem after_selection (cw : Connection × World) :
    after (selection cw) = after (Connection.ask CONTEXT [] cw) := by
  rw [selection, Connection.after_bind_attempt, context, Connection.after_bind_attempt, answered,
    Connection.after_bind_attempt]

end Follow

/-- A call ends with its own reply, fails asking for the tenancy, or goes on to follow. -/
theorem Connection.execute_spec (script : Str) (ps : List (Str × Value)) {c : Connection}
    {w : World} (hown : c.sock < w.opened) :
    (execute script ps (c, w) = ask script ps (c, w) ∧
      ∀ reply, outcome (ask script ps (c, w)) = .ok reply → reply.redirect = none) ∨
    ∃ reply redirect s₁ s₂, ask script ps (c, w) = .ok reply (c.spent, w.put c.sock s₁) ∧
      reply.redirect = some redirect ∧
      ((∃ e, Follow.selection (c.spent, w.put c.sock s₁) =
            .error e (c.spent, w.put c.sock s₂) ∧
          execute script ps (c, w) = .error e (c.spent, w.put c.sock s₂)) ∨
        ∃ selecting visits, Follow.selection (c.spent, w.put c.sock s₁) =
            .ok selecting (c.spent, w.put c.sock s₂) ∧
          Follow.Trail script ps selecting c.spent (w.put c.sock s₂) Follow.MOST_HOPS redirect 0
            visits (execute script ps (c, w)) ∧
          Follow.Landed c.spent visits (execute script ps (c, w))) := by
  have hstays := ask_stays script ps c w
  cases hask : ask script ps (c, w) with
  | error e cw => exact .inl ⟨bind_of_error hask _, nofun⟩
  | ok reply cw =>
      have hexecute : execute script ps (c, w) = _ := bind_of_ok hask _
      cases hredirect : reply.redirect with
      | none =>
          rw [hredirect] at hexecute
          refine .inl ⟨hexecute, fun reply' h => ?_⟩
          obtain rfl := Except.ok.inj h
          exact hredirect
      | some redirect =>
          rw [hredirect] at hexecute
          have hspent : cw.1 = c.spent := by
            have h := ask_spent (congrArg outcome hask)
            rwa [hask] at h
          rw [hask] at hstays
          obtain ⟨c₁, s₁, hcw, -⟩ := hstays
          obtain rfl : cw = (c₁, w.put c.sock s₁) := hcw
          obtain rfl : c₁ = c.spent := hspent
          obtain ⟨c₂, s₂, hafter, hc₂⟩ := ask_stays Follow.CONTEXT [] c.spent (w.put c.sock s₁)
          rw [spent_spent, or_self] at hc₂
          rw [← Follow.after_selection, hc₂, spent_sock, World.put_put] at hafter
          refine .inr ⟨reply, redirect, s₁, s₂, rfl, hredirect, ?_⟩
          cases hselection : Follow.selection (c.spent, w.put c.sock s₁) with
          | error e cw =>
              rw [hselection] at hafter
              obtain rfl : cw = (c.spent, w.put c.sock s₂) := hafter
              exact .inl ⟨e, rfl, hexecute.trans (bind_of_error hselection _)⟩
          | ok selecting cw =>
              rw [hselection] at hafter
              obtain rfl : cw = (c.spent, w.put c.sock s₂) := hafter
              have hfollow : execute script ps (c, w) = Follow.followLoop script ps selecting
                  Follow.MOST_HOPS redirect 0 (c.spent, w.put c.sock s₂) :=
                hexecute.trans (bind_of_ok hselection _)
              obtain ⟨visits, htrail, hlanded⟩ := Follow.followLoop_spec (c := c.spent)
                (w := w.put c.sock s₂) script ps selecting Follow.MOST_HOPS redirect 0 hown
              exact .inr ⟨selecting, visits, rfl, hfollow ▸ htrail, hfollow ▸ hlanded⟩

/-! ### Safety -/

/-- The clause of a `USE` for one field of a context. -/
def Follow.Clause (fields : List (Str × Value)) (word key : String) (text : Str) : Prop :=
  match Dict.get? fields (ofString key) with
  | some (.text name) => plain name = true ∧
      text = ofString "USE " ++ (ofString word ++ (ofString " " ++ (name ++ ofString "; ")))
  | _ => text = []

/-- A script selects the tenancy of a context, by plain names. -/
def Follow.Selects (fields : List (Str × Value)) (selecting : Str) : Prop :=
  ∃ inNamespace inDatabase, Clause fields "NAMESPACE" "namespace" inNamespace ∧
    Clause fields "DATABASE" "database" inDatabase ∧ selecting = inNamespace ++ inDatabase

/-- Whether a session has a namespace or a database selected. -/
def Follow.Selected (fields : List (Str × Value)) : Prop :=
  ∃ key ∈ ["namespace", "database"], ∃ name, Dict.get? fields (ofString key) = some (.text name)

theorem Follow.Selects.ne_nil {fields : List (Str × Value)} {selecting : Str}
    (h : Selects fields selecting) (hselected : Selected fields) : selecting ≠ [] := by
  obtain ⟨inNamespace, inDatabase, hnamespace, hdatabase, rfl⟩ := h
  have hclause : ∀ {word key : String} {text name : Str}, Clause fields word key text →
      Dict.get? fields (ofString key) = some (.text name) → text ≠ [] := by
    rintro word key text name hclause hkey rfl
    rw [Clause, hkey] at hclause
    cases hclause.2
  obtain ⟨key, hkey, name, hname⟩ := hselected
  simp only [List.mem_cons, List.not_mem_nil, or_false] at hkey
  rcases hkey with rfl | rfl
  · exact List.append_ne_nil_of_left_ne_nil (hclause hnamespace hname) _
  · exact List.append_ne_nil_of_right_ne_nil _ (hclause hdatabase hname)

theorem Follow.clause_eq_ok {fields : List (Str × Value)} {word key : String} {text : Str}
    (h : clause fields word key = .ok text) : Clause fields word key text := by
  rw [clause] at h
  rw [Clause]
  split at h
  · next name hname =>
    split at h
    · next hplain => exact ⟨hplain, (Except.ok.inj h).symm⟩
    · cases h
  · exact (Except.ok.inj h).symm

theorem Follow.selects_of_selection {c : Connection} {w : World} {selecting : Str}
    (h : outcome (selection (c, w)) = .ok selecting) :
    ∃ fields, outcome (context (c, w)) = .ok fields ∧ Selects fields selecting := by
  rw [selection] at h
  cases hcontext : context (c, w) with
  | error e cw =>
      rw [bind_of_error hcontext] at h
      cases h
  | ok fields cw =>
      rw [bind_of_ok hcontext, Connection.attempt, outcome_settle, selectionOf] at h
      refine ⟨fields, rfl, ?_⟩
      cases hnamespace : clause fields "NAMESPACE" "namespace" with
      | error e =>
          rw [hnamespace] at h
          cases h
      | ok inNamespace =>
          cases hdatabase : clause fields "DATABASE" "database" with
          | error e =>
              rw [hnamespace, hdatabase] at h
              cases h
          | ok inDatabase =>
              rw [hnamespace, hdatabase] at h
              exact ⟨inNamespace, inDatabase, clause_eq_ok hnamespace, clause_eq_ok hdatabase,
                (Except.ok.inj h).symm⟩

/-- **Following a redirect is safe and bounded.** One call follows three redirects at most, of
epochs that never decrease; over each it sends the statements of `Follow.statements` in their
order and the script only to a node that was vetted; and a call that raises has closed every
connection it opened and left its own as it was. -/
theorem following_is_safe (script : Str) (ps : List (Str × Value)) {c : Connection} {w : World}
    (hown : c.sock < w.opened) :
    ∃ (visits : List Visit) (selecting : Str),
      visits.length ≤ 3 ∧
      (after (Connection.execute script ps (c, w))).2.opened = w.opened + visits.length ∧
      visits.map Visit.sock = List.range' w.opened visits.length ∧
      (∀ v ∈ visits, v.Safe script ps selecting c.login
        ((after (Connection.execute script ps (c, w))).2.sockets v.sock)) ∧
      (∀ v ∈ visits.head?, ∃ reply, outcome (Connection.ask script ps (c, w)) = .ok reply ∧
        reply.redirect = some v.redirect) ∧
      (visits.IsChain fun v v' => v.redirect.epoch ≤ v'.redirect.epoch ∧ v.Redirects v') ∧
      (visits ≠ [] → ∃ fields,
        outcome (Follow.context (after (Connection.ask script ps (c, w)))) = .ok fields ∧
          Follow.Selects fields selecting ∧ (Follow.Selected fields → selecting ≠ [])) ∧
      ∀ e, outcome (Connection.execute script ps (c, w)) = .error e →
        (after (Connection.execute script ps (c, w))).1 =
            (after (Connection.ask script ps (c, w))).1 ∧
          (after (Connection.execute script ps (c, w))).1.sock = c.sock ∧
          (after (Connection.execute script ps (c, w))).1.minor = c.minor ∧
          ∀ v ∈ visits,
            ((after (Connection.execute script ps (c, w))).2.sockets v.sock).closed = true := by
  rcases Connection.execute_spec script ps hown with ⟨hexecute, -⟩ |
    ⟨reply, redirect, s₁, s₂, hask, hredirect, hrest⟩
  · obtain ⟨c', s', hafter, hc'⟩ := Connection.ask_stays script ps c w
    rw [hexecute]
    refine ⟨[], [], Nat.zero_le _, by rw [hafter]; rfl, rfl, nofun, nofun, .nil,
      fun h => absurd rfl h, fun e _ => ⟨rfl, ?_, ?_, nofun⟩⟩
    · rw [hafter]
      exact Follow.sock_of_spent hc'
    · rw [hafter]
      rcases hc' with rfl | rfl <;> rfl
  rw [hask]
  rcases hrest with ⟨e, hselection, hexecute⟩ | ⟨selecting, visits, hselection, htrail, -⟩
  · rw [hexecute]
    exact ⟨[], [], Nat.zero_le _, rfl, rfl, nofun, nofun, .nil, fun h => absurd rfl h,
      fun e _ => ⟨rfl, rfl, rfl, nofun⟩⟩
  · refine ⟨visits, selecting, htrail.few, htrail.opened, htrail.socks, htrail.safe, ?_,
      htrail.chain, fun _ => ?_, ?_⟩
    · intro v hv
      exact ⟨reply, rfl, hredirect.trans (congrArg some (htrail.first v hv).1.symm)⟩
    · obtain ⟨fields, hfields, hselects⟩ :=
        Follow.selects_of_selection (congrArg outcome hselection)
      exact ⟨fields, hfields, hselects, hselects.ne_nil⟩
    · intro e he
      cases htrail.ended with
      | stayed hc _ hclosed => exact ⟨hc, by rw [hc]; rfl, by rw [hc]; rfl, hclosed⟩
      | moved reply v minor hr => exact nomatch hr.symm.trans he

/-- The answer that is one value, given its encoding. -/
def Follow.valueAnswer (raw : Bytes) : Bytes :=
  BigEndian.toBytes 4 1 ++ (BigEndian.toBytes 4 (9 + raw.length) ++
    (2 :: (BigEndian.toBytes 4 0 ++ (BigEndian.toBytes 4 raw.length ++ raw))))

/-- A node that redirects to `b:1` and has nothing selected, and the node it names. -/
def Follow.redirecting : World where
  sockets _ := .opened (.whole (Frames.frame Frames.ELSEWHERE (List.replicate 16 0x42 ++
    [0, 0, 0, 0, 0, 0, 0, 7, 2, 0, 0, 0, 3, 0x62, 0x3A, 0x31]) ++
      Frames.frame Frames.ANSWER (valueAnswer [0x0D, 0, 0, 0, 0])) .eof) 2
  opened := 1
  dials := [.opened (.whole (Frames.GREETING ++ (Frames.frame Frames.ANSWER
    (valueAnswer ([0x0D, 0, 0, 0, 1, 0, 0, 0, 4, 0x6E, 0x6F, 0x64, 0x65, 0x09] ++
      List.replicate 16 0x42)) ++ Frames.frame Frames.ANSWER (valueAnswer [0x02]))) .eof) 3]
  isDigit c := c == codePoint 0x31
  repr _ := ""

/-- A redirect that is followed to its answer. -/
theorem following_is_safe_to_an_answer :
    ∃ (v : Visit) (selecting : Str), v.Safe (ofString "RETURN 1;") [] selecting none
        ((after (Connection.execute (ofString "RETURN 1;") []
          (⟨0, none, none, false, false, 4⟩, Follow.redirecting))).2.sockets v.sock) ∧
      ((after (Connection.execute (ofString "RETURN 1;") []
          (⟨0, none, none, false, false, 4⟩, Follow.redirecting))).2.sockets 1).sent.length = 3 := by
  obtain ⟨visits, selecting, -, hopened, -, hsafe, -⟩ := following_is_safe (ofString "RETURN 1;") []
    (c := ⟨0, none, none, false, false, 4⟩) (w := Follow.redirecting) Nat.one_pos
  have htwo : (after (Connection.execute (ofString "RETURN 1;") []
      (⟨0, none, none, false, false, 4⟩, Follow.redirecting))).2.opened = 2 := by decide +kernel
  have hone : visits.length = 1 := Nat.add_left_cancel (hopened.symm.trans htwo)
  obtain ⟨v, rfl⟩ := List.length_eq_one_iff.mp hone
  exact ⟨v, selecting, hsafe v List.mem_cons_self, by decide +kernel⟩

end TessariDB
