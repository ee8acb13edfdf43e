import TessariDB.FrameLayer
import TessariDB.Connection

/-!
# Conversations

What has gone over a socket since the greetings: the frames written on it, and the frames
received in turn. A connection that dials starts one (`connect_spec`), and every statement and
every vault frame carries it on by a request and its reply, or ends it (`InStep.exchanged`).

## Main results

* `connect_spec`: what dialling can come to.
* `InStep.exchanged`: an exchange leaves requests and replies in step, or closes the socket.
* `Connection.ask_step`: what one statement adds to a conversation.
-/

namespace TessariDB

open ByteCodec ByteStream Utf8

/-- The frames written after the greeting, and frames received first after the peer's. -/
structure Conversed (s : Socket) (requests replies : List (ℕ × Bytes)) : Prop where
  sent : s.sent.tail = requests.map fun f => Frames.frame f.1 f.2
  taken : Frames.wire replies <+: s.taken.drop 6

/-- A conversation that can go on: the socket is open, each request has had one frame in
reply, and nothing else was received. -/
structure InStep (s : Socket) (requests replies : List (ℕ × Bytes)) : Prop where
  isOpen : s.closed = false
  hello : 6 ≤ s.taken.length
  sent : s.sent = Frames.GREETING :: requests.map fun f => Frames.frame f.1 f.2
  taken : s.taken.drop 6 = Frames.wire replies
  paired : replies.length = requests.length
  whole : ∀ f ∈ replies, f.1 ∈ Connection.REPLIES ∧ f.2.length ≤ Frames.CEILING

theorem InStep.conversed {s : Socket} {requests replies : List (ℕ × Bytes)}
    (h : InStep s requests replies) : Conversed s requests replies :=
  ⟨congrArg List.tail h.sent, h.taken ▸ List.prefix_rfl⟩

theorem wire_concat (frames : List (ℕ × Bytes)) (k : ℕ) (b : Bytes) :
    Frames.wire (frames ++ [(k, b)]) = Frames.wire frames ++ Frames.frame k b := by
  rw [Frames.wire, Frames.wire, List.flatMap_append, List.flatMap_singleton]

theorem InStep.sent_concat {s : Socket} {requests replies : List (ℕ × Bytes)}
    (h : InStep s requests replies) (kind : ℕ) (body : Bytes) :
    s.sent ++ [Frames.frame kind body] = Frames.GREETING ::
      (requests ++ [(kind, body)]).map fun f => Frames.frame f.1 f.2 := by
  rw [h.sent, List.cons_append, List.map_append]
  rfl

/-- One frame out and one reply in. -/
theorem InStep.answered {kind k : ℕ} {body b : Bytes} {s s' : Socket}
    {requests replies : List (ℕ × Bytes)} (h : InStep s requests replies)
    (hk : k ∈ Connection.REPLIES ∧ b.length ≤ Frames.CEILING)
    (hadv : (s.wrote (Frames.frame kind body)).Advanced s' (Frames.frame k b)) :
    InStep s' (requests ++ [(kind, body)]) (replies ++ [(k, b)]) where
  isOpen := hadv.closed.trans h.isOpen
  hello := by
    rw [hadv.taken, List.length_append]
    exact Nat.le_add_right_of_le h.hello
  sent := hadv.sent.trans (h.sent_concat kind body)
  taken := by
    rw [hadv.taken, wire_concat, ← h.taken]
    exact List.drop_append_of_le_length h.hello
  paired := by
    rw [List.length_append, List.length_append, h.paired]
    rfl
  whole := List.forall_mem_append.mpr ⟨h.whole, List.forall_mem_singleton.mpr hk⟩

/-- One frame out and something else in. -/
theorem InStep.broken {kind : ℕ} {body b : Bytes} {s s' : Socket}
    {requests replies : List (ℕ × Bytes)} (h : InStep s requests replies)
    (hadv : (s.wrote (Frames.frame kind body)).Advanced s' b) :
    Conversed s'.close (requests ++ [(kind, body)]) replies := by
  refine ⟨congrArg List.tail (hadv.sent.trans (h.sent_concat kind body)), b, ?_⟩
  rw [Socket.close, hadv.taken, ← h.taken]
  exact (List.drop_append_of_le_length h.hello).symm

/-- **An exchange keeps a conversation in step or closes it.** -/
theorem InStep.exchanged {kind : ℕ} {body : Bytes} {s s' : Socket} {r : Except Raised Reply}
    {requests replies : List (ℕ × Bytes)} (h : InStep s requests replies)
    (hr : Connection.Exchanged kind body s s' r) :
    (s' = s ∧ ∃ e, r = .error e) ∨
    (∃ k b, InStep s' (requests ++ [(kind, body)]) (replies ++ [(k, b)]) ∧
      r = Connection.replyOf k b) ∨
    ((s'.closed = true ∧ Conversed s' (requests ++ [(kind, body)]) replies) ∧
      ∃ e, r = .error e) := by
  cases hr with
  | unsent e _ => exact .inl ⟨rfl, e, rfl⟩
  | answered k b _ _ _ hreply hadv =>
      exact .inr (.inl ⟨k, b, h.answered (Connection.replyIn_eq_ok hreply) hadv, rfl⟩)
  | broken e b _ _ _ _ hadv => exact .inr (.inr ⟨⟨rfl, h.broken hadv⟩, e, rfl⟩)

/-! ### Dialling -/

/-- What dialling can come to: no socket, one that did not greet and is closed, or a fresh
conversation. -/
theorem Connection.connect_spec (address : Str) (user password : Option Str) (w : World) :
    (∃ e w', connect address user password w = .error e w' ∧
      w'.sockets = w.sockets ∧ w'.opened = w.opened) ∨
    (∃ e w' s, connect address user password w = .error e w' ∧
      w'.sockets = Function.update w.sockets w.opened s ∧ w'.opened = w.opened + 1 ∧
      s.closed = true ∧ Conversed s [] []) ∨
    ∃ minor w' s, connect address user password w =
        .ok ⟨w.opened, user, password, user.isSome, false, minor⟩ w' ∧
      w'.sockets = Function.update w.sockets w.opened s ∧ w'.opened = w.opened + 1 ∧
      InStep s [] [] := by
  have hshut : ∀ {s : Socket}, s.sent.tail = [] → Conversed s.close [] [] := fun h =>
    ⟨h, List.nil_prefix⟩
  rw [connect]
  dsimp only
  split
  · exact .inl ⟨_, w, rfl, rfl, rfl⟩
  cases w.dials with
  | nil => exact .inl ⟨_, w, rfl, rfl, rfl⟩
  | cons dial dials =>
      cases dial with
      | failed why => exact .inl ⟨why, _, rfl, rfl, rfl⟩
      | opened source sends =>
          right
          have hfresh : (w.accept source sends dials).sockets w.opened =
              .opened source sends := Function.update_self ..
          have hput : ∀ s, ((w.accept source sends dials).put w.opened s).sockets =
              Function.update w.sockets w.opened s := fun s => Function.update_idem ..
          dsimp only
          rw [hfresh]
          by_cases hsends : sends = 0
          · obtain ⟨message, hgreet⟩ := Frames.greet_of_unsent
              (s := .opened source sends) (.inr hsends)
            rw [hgreet]
            exact .inl ⟨_, _, _, rfl, hput _, rfl, rfl, hshut rfl⟩
          rcases Frames.greet_spec (s := .opened source sends) rfl hsends with
            ⟨version, s', hgreet, hadv, hversion⟩ | ⟨e, s', b, hgreet, hadv, -⟩
          · rw [hgreet]
            refine .inr ⟨version.2, _, _, rfl, hput _, rfl, hadv.closed, ?_, hadv.sent, ?_, rfl,
              nofun⟩
            · rw [hadv.taken, List.length_append, List.length_take,
                Nat.min_eq_left (Frames.length_of_greetingOf hversion)]
              exact Nat.le_add_left ..
            · rw [hadv.taken]
              exact List.drop_eq_nil_of_le (List.length_take_le ..)
          · rw [hgreet]
            exact .inl ⟨_, _, _, rfl, hput _, rfl, rfl, hshut (congrArg List.tail hadv.sent)⟩

/-! ### Statements -/

/-- The requests in which a beginning of `statements` went out; the first one presents the
credentials, and no other does. -/
inductive Asked : Option (Str × Str) → List (Str × List (Str × Value)) → List (ℕ × Bytes) → Prop
  | nil (credentials : Option (Str × Str)) (statements : List (Str × List (Str × Value))) :
      Asked credentials statements []
  | cons {credentials : Option (Str × Str)} {script : Str} {ps : List (Str × Value)}
      {body : Bytes} {statements : List (Str × List (Str × Value))}
      {requests : List (ℕ × Bytes)} (hbody : requestBody script credentials ps = .ok body)
      (hrest : Asked none statements requests) :
      Asked credentials ((script, ps) :: statements) ((Frames.REQUEST, body) :: requests)

theorem Asked.append {credentials : Option (Str × Str)}
    {statements : List (Str × List (Str × Value))} {requests : List (ℕ × Bytes)}
    (h : Asked credentials statements requests) (more : List (Str × List (Str × Value))) :
    Asked credentials (statements ++ more) requests := by
  induction h with
  | nil => exact .nil _ _
  | cons hbody _ ih => exact .cons hbody ih

theorem Asked.length_le {credentials : Option (Str × Str)}
    {statements : List (Str × List (Str × Value))} {requests : List (ℕ × Bytes)}
    (h : Asked credentials statements requests) : requests.length ≤ statements.length := by
  induction h with
  | nil => exact Nat.zero_le _
  | cons _ _ ih => exact Nat.succ_le_succ ih

/-- What one statement comes to in a conversation: it fails, after a request at most, or it is
answered, and the conversation goes on. -/
inductive Stepped {α : Type} (c : Connection) (w : World) (script : Str)
    (ps : List (Str × Value)) (requests replies : List (ℕ × Bytes)) (read : Reply → α → Prop) :
    EStateM.Result Raised (Connection × World) α → Prop
  | failed (e : Raised) (c' : Connection) (s' : Socket) (sent received : List (ℕ × Bytes))
      (hc' : c' = c ∨ c' = c.spent) (hsent : Asked c.credentials [(script, ps)] sent)
      (hs' : Conversed s' (requests ++ sent) (replies ++ received))
      (hopen : s'.closed = false → InStep s' (requests ++ sent) (replies ++ received)) :
      Stepped c w script ps requests replies read (.error e (c', w.put c.sock s'))
  | answered (body : Bytes) (k : ℕ) (b : Bytes) (s' : Socket) (reply : Reply) (a : α)
      (hbody : requestBody script c.credentials ps = .ok body)
      (hs' : InStep s' (requests ++ [(Frames.REQUEST, body)]) (replies ++ [(k, b)]))
      (hreply : Connection.replyOf k b = .ok reply) (ha : read reply a) :
      Stepped c w script ps requests replies read (.ok a (c.spent, w.put c.sock s'))

section Stepped

variable {α β : Type} {c : Connection} {w : World} {script : Str} {ps : List (Str × Value)}
variable {requests replies : List (ℕ × Bytes)} {read : Reply → α → Prop}

theorem Stepped.unsent (h : InStep (w.sockets c.sock) requests replies) (e : Raised)
    {c' : Connection} (hc' : c' = c ∨ c' = c.spent) :
    Stepped c w script ps requests replies read (.error e (c', w)) := by
  rw [← List.append_nil requests, ← List.append_nil replies] at h
  have hfailed : Stepped c w script ps requests replies read _ :=
    .failed e c' _ [] [] hc' (.nil _ _) h.conversed fun _ => h
  rwa [World.put_self] at hfailed

theorem Stepped.mono {read' : Reply → α → Prop} {r : EStateM.Result Raised (Connection × World) α}
    (h : Stepped c w script ps requests replies read r)
    (himp : ∀ reply a, read reply a → read' reply a) :
    Stepped c w script ps requests replies read' r := by
  cases h with
  | failed e c' s' sent received hc' hsent hs' hopen =>
      exact .failed e c' s' sent received hc' hsent hs' hopen
  | answered body k b s' reply a hbody hs' hreply ha =>
      exact .answered body k b s' reply a hbody hs' hreply (himp reply a ha)

/-- Reading more out of a reply. -/
theorem Stepped.bind_attempt {m : Client α}
    (h : Stepped c w script ps requests replies read (m (c, w))) (f : α → Except Raised β) :
    Stepped c w script ps requests replies (fun reply b => ∃ a, read reply a ∧ f a = .ok b)
      ((m >>= fun a => Connection.attempt (f a)) (c, w)) := by
  generalize hm : m (c, w) = r at h
  cases h with
  | failed e c' s' sent received hc' hsent hs' hopen =>
      rw [bind_of_error hm]
      exact .failed e c' s' sent received hc' hsent hs' hopen
  | answered body k b s' reply a hbody hs' hreply ha =>
      rw [bind_of_ok hm, Connection.attempt]
      cases hf : f a with
      | error e =>
          exact .failed e c.spent s' _ _ (.inr rfl) (.cons hbody (.nil none [])) hs'.conversed
            fun _ => hs'
      | ok b' => exact .answered body k b s' reply b' hbody hs' hreply ⟨a, ha, hf⟩

end Stepped

theorem Connection.ask_step {c : Connection} {w : World} {requests replies : List (ℕ × Bytes)}
    (h : InStep (w.sockets c.sock) requests replies) (script : Str) (ps : List (Str × Value)) :
    Stepped c w script ps requests replies (fun reply a => reply = a) (ask script ps (c, w)) := by
  rcases ask_spec script ps c w with ⟨-, e, hask⟩ | ⟨-, e, -, hask⟩ |
    ⟨-, body, s', r, hbody, hr, hask⟩
  · rw [hask]
    exact .unsent h e (.inl rfl)
  · rw [hask]
    exact .unsent h e (requested_eq c script)
  · rw [hask]
    rcases h.exchanged hr with ⟨rfl, e, rfl⟩ | ⟨k, b, hs', rfl⟩ | ⟨⟨hclosed, hs'⟩, e, rfl⟩
    · rw [World.put_self]
      exact .unsent h e (.inr rfl)
    · cases hreply : replyOf k b with
      | error e =>
          exact .failed e c.spent s' _ _ (.inr rfl) (.cons hbody (.nil none [])) hs'.conversed
            fun _ => hs'
      | ok reply => exact .answered body k b s' reply reply hbody hs' hreply rfl
    · rw [← List.append_nil replies] at hs'
      exact .failed e c.spent s' [(Frames.REQUEST, body)] [] (.inr rfl)
        (.cons hbody (.nil none [])) hs' fun hopen => nomatch hclosed.symm.trans hopen

end TessariDB
