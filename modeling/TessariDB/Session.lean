import TessariDB.Follow

/-!
# Sessions

Any sequence of calls on a connection, whatever each of them comes to. Between calls a
connection that is open is in step: each frame sent on its socket has had one frame in reply,
and what is still to come begins with a whole frame.

## Main results

* `Live.call`: a call keeps a connection closed or in step.
* `every_answer_is_its_own`: so does every run, and a statement or a vault frame is answered by
  the next frame and by no other.
-/

namespace TessariDB

open ByteCodec ByteStream Utf8 Connection

/-! ### Calls -/

/-- A call that sends frames: `execute`, or a vault act. -/
inductive Call where
  | execute (script : Str) (parameters : List (Str × Value))
  | vault (act : Act) (passphrase current new : Option Str) (place : Option (Str × Str × Str))

/-- A call, without what it returns. -/
def Call.run : Call → Client Unit
  | .execute script parameters => discard (Connection.execute script parameters)
  | .vault act passphrase current new place => discard (Connection.vault fun credentials =>
      frameBody credentials act passphrase current new place)

/-- The state after a sequence of calls; a caller may go on after an exception. -/
def runs : List Call → Connection × World → Connection × World
  | [], cw => cw
  | call :: calls, cw => runs calls (after (call.run cw))

/-- Where a computation gets to does not depend on what is made of its result. -/
theorem after_discard {α : Type} (m : Client α) (cw : Connection × World) :
    after ((discard m : Client Unit) cw) = after (m cw) := by
  cases hm : m cw with
  | error e cw' => rw [discard_of_error hm]; rfl
  | ok a cw' => rw [discard_of_ok hm]; rfl

theorem outcome_discard_eq_error {α : Type} {m : Client α} {cw : Connection × World}
    {e : Raised} : outcome ((discard m : Client Unit) cw) = .error e ↔ outcome (m cw) = .error e := by
  cases hm : m cw with
  | error e' cw' => rw [discard_of_error hm]; simp [outcome]
  | ok a cw' => rw [discard_of_ok hm]; simp [outcome]

/-! ### In step -/

/-- A connection between calls: its socket is closed, or in step. -/
structure Live (c : Connection) (w : World) : Prop where
  held : c.sock < w.opened
  asking : c.subscribed = false
  inStep : (w.sockets c.sock).closed = false →
    ∃ requests replies, InStep (w.sockets c.sock) requests replies

/-- Nothing is exchanged over a closed socket. -/
theorem Connection.Exchanged.of_closed {kind : ℕ} {body : Bytes} {s s' : Socket}
    {r : Except Raised Reply} (h : Exchanged kind body s s' r) (hclosed : s.closed = true) :
    s' = s := by
  cases h with
  | unsent => rfl
  | answered _ _ _ _ hopen => exact nomatch hclosed.symm.trans hopen
  | broken _ _ _ _ hopen => exact nomatch hclosed.symm.trans hopen

theorem Live.exchanged {c c' : Connection} {w : World} {kind : ℕ} {body : Bytes} {s' : Socket}
    {r : Except Raised Reply} (h : Live c w) (hc' : c' = c ∨ c' = c.spent)
    (hr : Exchanged kind body (w.sockets c.sock) s' r) : Live c' (w.put c.sock s') := by
  have hsock : c'.sock = c.sock := Follow.sock_of_spent hc'
  refine ⟨hsock ▸ h.held, ?_, fun hopen => ?_⟩
  · rcases hc' with rfl | rfl <;> exact h.asking
  · rw [hsock, World.put_sockets_self] at hopen ⊢
    by_cases hclosed : (w.sockets c.sock).closed = true
    · obtain rfl := hr.of_closed hclosed
      cases hclosed.symm.trans hopen
    · obtain ⟨requests, replies, hstep⟩ := h.inStep (Bool.eq_false_of_not_eq_true hclosed)
      rcases hstep.exchanged hr with ⟨rfl, -⟩ | ⟨k, b, hstep', -⟩ | ⟨⟨hclosed', -⟩, -⟩
      · exact ⟨requests, replies, hstep⟩
      · exact ⟨_, _, hstep'⟩
      · cases hclosed'.symm.trans hopen

theorem Live.spent {c c' : Connection} {w : World} (h : Live c w)
    (hc' : c' = c ∨ c' = c.spent) : Live c' w := by
  rcases hc' with rfl | rfl
  · exact h
  · exact ⟨h.held, h.asking, h.inStep⟩

theorem Live.ask {c : Connection} {w : World} (h : Live c w) (script : Str)
    (ps : List (Str × Value)) :
    Live (after (Connection.ask script ps (c, w))).1 (after (Connection.ask script ps (c, w))).2 := by
  rcases ask_spec script ps c w with ⟨-, e, hask⟩ | ⟨-, e, -, hask⟩ |
    ⟨-, body, s', r, -, hr, hask⟩
  · rw [hask]
    exact h
  · rw [hask]
    exact h.spent (requested_eq c script)
  · rw [hask, after_settle]
    exact h.exchanged (.inr rfl) hr

theorem Live.vault {c : Connection} {w : World} (h : Live c w)
    (body : Option (Str × Str) → Writer) :
    Live (after (Connection.vault body (c, w))).1 (after (Connection.vault body (c, w))).2 := by
  rcases vault_spec body c w with ⟨-, e, hvault⟩ | ⟨-, e, -, hvault⟩ |
    ⟨-, raw, s', r, -, hr, hvault⟩
  · rw [hvault]
    exact h
  · rw [hvault]
    exact h.spent (.inr rfl)
  · rw [hvault, after_settle]
    exact h.exchanged (.inr rfl) hr

/-- Following a redirect leaves the caller where it was, or on the last new connection. -/
theorem Live.execute {c : Connection} {w : World} (h : Live c w) (script : Str)
    (ps : List (Str × Value)) :
    Live (after (Connection.execute script ps (c, w))).1
      (after (Connection.execute script ps (c, w))).2 := by
  rcases execute_spec script ps h.held with ⟨hexecute, -⟩ |
    ⟨reply, redirect, s₁, s₂, hask, -, hrest⟩
  · rw [hexecute]
    exact h.ask script ps
  have hasked : Live c.spent (w.put c.sock s₁) := by
    have hlive := h.ask script ps
    rwa [hask] at hlive
  have hselected := hasked.ask Follow.CONTEXT []
  rw [← Follow.after_selection] at hselected
  rcases hrest with ⟨e, hselection, hexecute⟩ | ⟨selecting, visits, hselection, htrail, -⟩
  · rw [hselection] at hselected
    rw [hexecute]
    exact hselected
  · rw [hselection] at hselected
    have hlive : Live c.spent (w.put c.sock s₂) := hselected
    cases htrail.ended with
    | stayed hc hown _ =>
        rw [hc]
        refine ⟨?_, hlive.asking, fun hopen => ?_⟩
        · rw [htrail.opened]
          exact Nat.lt_add_right _ hlive.held
        · rw [hown] at hopen ⊢
          exact hlive.inStep hopen
    | moved reply v minor _ hlast hc _ _ hstep _ =>
        rw [hc]
        exact ⟨(htrail.mem_socks.mp (List.mem_map_of_mem (List.mem_of_getLast? hlast))).2,
          hlive.asking, fun _ => ⟨_, _, hstep⟩⟩

/-- A call keeps a connection closed or in step. -/
theorem Live.call {c : Connection} {w : World} (h : Live c w) (call : Call) :
    Live (after (call.run (c, w))).1 (after (call.run (c, w))).2 := by
  cases call with
  | execute script parameters =>
      rw [Call.run, after_discard]
      exact h.execute script parameters
  | vault act passphrase current new place =>
      rw [Call.run, after_discard]
      exact h.vault _

theorem Live.runs {cw : Connection × World} (h : Live cw.1 cw.2) (calls : List Call) :
    Live (runs calls cw).1 (runs calls cw).2 := by
  induction calls generalizing cw with
  | nil => exact h
  | cons call calls ih => exact ih (h.call call)

/-- A new connection has asked nothing yet. -/
theorem live_of_connect {address : Str} {user password : Option Str} {w w' : World}
    {c : Connection} (h : connect address user password w = .ok c w') : Live c w' := by
  rcases connect_spec address user password w with ⟨e, _, hrun, -⟩ | ⟨e, _, s, hrun, -⟩ |
    ⟨minor, w₁, s, hrun, hsockets, hopened, hs⟩
  · cases hrun.symm.trans h
  · cases hrun.symm.trans h
  · obtain ⟨rfl, rfl⟩ := EStateM.Result.ok.inj (hrun.symm.trans h)
    refine ⟨hopened ▸ Nat.lt_succ_self _, rfl, fun _ => ⟨[], [], ?_⟩⟩
    rwa [hsockets, Function.update_self]

/-! ### Pairing -/

/-- How a call that sends a frame of `kind` and reads the reply goes on from a conversation in
step: nothing is sent and it raises; or the next frame to come is a reply, and the call comes
to what that frame is read as; or it is none, and the socket is closed. -/
inductive Paired {α : Type} (kind : ℕ) (read : Reply → Except Raised α) (c : Connection)
    (w : World) (requests replies : List (ℕ × Bytes)) :
    EStateM.Result Raised (Connection × World) α → Prop
  | unsent (e : Raised) (c' : Connection) (hc' : c' = c ∨ c' = c.spent) :
      Paired kind read c w requests replies (.error e (c', w))
  | answered (body : Bytes) (k : ℕ) (b : Bytes) (s' : Socket)
      (hreply : replyIn (w.sockets c.sock).flat (w.sockets c.sock).source.ending = .ok (k, b))
      (hs' : InStep s' (requests ++ [(kind, body)]) (replies ++ [(k, b)])) :
      Paired kind read c w requests replies
        (settle ((replyOf k b).bind read) (c.spent, w.put c.sock s'))
  | broken (body : Bytes) (e : Raised) (s' : Socket)
      (hreply : replyIn (w.sockets c.sock).flat (w.sockets c.sock).source.ending = .error e)
      (hclosed : s'.closed = true) (hs' : Conversed s' (requests ++ [(kind, body)]) replies) :
      Paired kind read c w requests replies (.error e (c.spent, w.put c.sock s'))

theorem Paired.of_exchanged {α : Type} {kind : ℕ} {body : Bytes} {read : Reply → Except Raised α}
    {c : Connection} {w : World} {requests replies : List (ℕ × Bytes)} {s' : Socket}
    {r : Except Raised Reply} (h : InStep (w.sockets c.sock) requests replies)
    (hr : Exchanged kind body (w.sockets c.sock) s' r) :
    Paired kind read c w requests replies (settle (r.bind read) (c.spent, w.put c.sock s')) := by
  cases hr with
  | unsent e _ =>
      rw [World.put_self]
      exact .unsent e c.spent (.inr rfl)
  | answered k b _ _ _ hreply hadv =>
      exact .answered body k b s' hreply (h.answered (replyIn_eq_ok hreply) hadv)
  | broken e b t _ _ hreply hadv => exact .broken body e t.close hreply rfl (h.broken hadv)

/-- **An answer is never attributed to another statement.** After any calls on a connection, its
socket is closed or in step; and from there a statement or a vault frame either sends nothing,
or is answered by the next frame, and the socket is in step again, or closes it. -/
theorem every_answer_is_its_own :
    (∀ (address : Str) (user password : Option Str) (w₀ : World) (c : Connection) (w : World),
      connect address user password w₀ = .ok c w → ∀ calls : List Call,
        Live (runs calls (c, w)).1 (runs calls (c, w)).2) ∧
    ∀ (c : Connection) (w : World) (requests replies : List (ℕ × Bytes)),
      InStep (w.sockets c.sock) requests replies →
        (∀ script ps, Paired Frames.REQUEST .ok c w requests replies (ask script ps (c, w))) ∧
        ∀ body, Paired Frames.VAULT statusOf c w requests replies (vault body (c, w)) := by
  refine ⟨fun address user password w₀ c w h calls => (live_of_connect h).runs calls,
    fun c w requests replies h => ⟨fun script ps => ?_, fun body => ?_⟩⟩
  · rcases ask_spec script ps c w with ⟨-, e, hask⟩ | ⟨-, e, -, hask⟩ |
      ⟨-, body, s', r, -, hr, hask⟩
    · rw [hask]
      exact .unsent e c (.inl rfl)
    · rw [hask]
      exact .unsent e _ (requested_eq c script)
    · rw [hask]
      have hpaired : Paired Frames.REQUEST .ok c w requests replies _ := .of_exchanged h hr
      have hbind : r.bind Except.ok = r := by cases r <;> rfl
      rwa [hbind] at hpaired
  · rcases vault_spec body c w with ⟨-, e, hvault⟩ | ⟨-, e, -, hvault⟩ |
      ⟨-, raw, s', r, -, hr, hvault⟩
    · rw [hvault]
      exact .unsent e c (.inl rfl)
    · rw [hvault]
      exact .unsent e c.spent (.inr rfl)
    · rw [hvault]
      exact .of_exchanged h hr

/-- A node that answers one statement. -/
def answering : World where
  sockets _ := .opened ⟨[], .eof⟩ 0
  opened := 0
  dials := [.opened (.whole (Frames.GREETING ++
    Frames.frame Frames.ANSWER (Follow.valueAnswer [0x02])) .eof) 3]
  isDigit c := c == codePoint 0x31
  repr _ := ""

/-- One statement, and then a second one that is not answered. -/
theorem every_answer_is_its_own_once :
    ∃ requests replies,
      InStep ((runs [.execute (ofString "RETURN 1;") []] (⟨0, none, none, false, false, 4⟩,
        after (connect (ofString "a:1") none none answering))).2.sockets 0) requests replies ∧
      requests.length = 1 ∧
      ((runs [.execute (ofString "RETURN 1;") [], .execute (ofString "RETURN 2;") []]
        (⟨0, none, none, false, false, 4⟩,
          after (connect (ofString "a:1") none none answering))).2.sockets 0).closed = true := by
  have hconnect : connect (ofString "a:1") none none answering =
      .ok ⟨0, none, none, false, false, 4⟩
        (after (connect (ofString "a:1") none none answering)) := rfl
  have hlive := every_answer_is_its_own.1 _ _ _ _ _ _ hconnect
    [.execute (ofString "RETURN 1;") []]
  have hsock : (runs [.execute (ofString "RETURN 1;") []] (⟨0, none, none, false, false, 4⟩,
      after (connect (ofString "a:1") none none answering))).1.sock = 0 := by decide +kernel
  have hlive' := hlive.inStep
  rw [hsock] at hlive'
  obtain ⟨requests, replies, hstep⟩ := hlive' (by decide +kernel)
  refine ⟨requests, replies, hstep, ?_, by decide +kernel⟩
  have hsent := congrArg List.length hstep.sent
  rw [List.length_cons, List.length_map] at hsent
  exact Nat.succ_injective (hsent.symm.trans (by decide +kernel))

end TessariDB
