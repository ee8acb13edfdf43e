import TessariDB.FailedFeeds
import TessariDB.Lockstep
import TessariDB.Settlement
import TessariDB.VaultHandle

/-!
# One Open Socket

A connection dials other nodes where it is redirected, and reads a feed where it subscribes. However
that goes, it leaves one socket open at most, its own. Which socket that is changes where a redirect
is settled.

## Main results

* `Alone.execute`, `Alone.next`: what a statement and a step of a feed leave open.
* `one_socket_is_open`: the same of whole lives, after any calls and any errors.
-/

namespace TessariDB

open ByteCodec ByteStream Utf8

/-- Of the sockets opened since `w₀`, none is open but the connection's own, and nothing has
happened on the others. -/
structure Alone (w₀ : World) (c : Connection) (w : World) : Prop where
  dialled : w₀.opened ≤ c.sock
  opened : c.sock < w.opened
  closed : ∀ i, w₀.opened ≤ i → i < w.opened → i ≠ c.sock → (w.sockets i).closed = true
  others : ∀ i, i < w₀.opened → w.sockets i = w₀.sockets i

namespace Alone

variable {w₀ w : World} {c : Connection}

/-- Something happens on the connection's own socket. -/
theorem put (h : Alone w₀ c w) {c' : Connection} (hsock : c'.sock = c.sock) (s : Socket) :
    Alone w₀ c' (w.put c.sock s) where
  dialled := hsock ▸ h.dialled
  opened := hsock ▸ h.opened
  closed i hbase hi hne := by
    rw [hsock] at hne
    rw [World.put_sockets_of_ne w hne]
    exact h.closed i hbase hi hne
  others i hi := by
    have hne : i ≠ c.sock := (Nat.lt_of_lt_of_le hi h.dialled).ne
    rw [World.put_sockets_of_ne w hne]
    exact h.others i hi

theorem stays {α : Type} (h : Alone w₀ c w) {r : EStateM.Result Raised (Connection × World) α}
    (hr : Connection.Stays c w r) : Alone w₀ (after r).1 (after r).2 := by
  obtain ⟨c', s', hafter, hc'⟩ := hr
  rw [hafter]
  exact h.put (Follow.sock_of_spent hc') s'

/-- Once the connection is closed as well, nothing is open. -/
theorem close (h : Alone w₀ c w) (i : ℕ) (hbase : w₀.opened ≤ i) (hi : i < w.opened) :
    ((w.close c.sock).sockets i).closed = true := by
  by_cases heq : i = c.sock
  · rw [heq, World.close, World.put_sockets_self]
    rfl
  · rw [World.close, World.put_sockets_of_ne w heq]
    exact h.closed i hbase hi heq

/-- A loop of redirects closes what it opens, except the socket it moves to. -/
theorem trail (h : Alone w₀ c w) {script : Str} {ps : List (Str × Value)} {selecting : Str}
    {left floor : ℕ} {redirect : Elsewhere} {visits : List Visit}
    {r : EStateM.Result Raised (Connection × World) Reply}
    (htrail : Follow.Trail script ps selecting c w left redirect floor visits r) :
    Alone w₀ (after r).1 (after r).2 := by
  have hopened := htrail.opened
  have hbase := h.dialled
  have hown := h.opened
  -- What there was stays closed, but for the connection's own socket.
  have hold : ∀ i, w₀.opened ≤ i → i < w.opened → i ≠ c.sock →
      ((after r).2.sockets i).closed = true := fun i hi hlt hne => by
    rw [htrail.kept i hlt hne]
    exact h.closed i hi hlt hne
  have hnew : ∀ i, w.opened ≤ i → i < (after r).2.opened → i ≠ (after r).1.sock →
      ((after r).2.sockets i).closed = true := by
    intro i hle hlt hne
    obtain ⟨v, hv, rfl⟩ := List.mem_map.mp (htrail.mem_socks.mpr ⟨hle, hlt⟩)
    exact htrail.ended.closed v hv hne
  have hothers : ∀ i, i < w₀.opened → (after r).2.sockets i = w₀.sockets i := fun i hi => by
    rw [htrail.kept i (by omega) (by omega)]
    exact h.others i hi
  cases htrail.ended with
  | stayed hc hsame _ =>
      refine ⟨hc ▸ h.dialled, by rw [hc]; omega, fun i hi hlt hne => ?_, hothers⟩
      rcases Nat.lt_or_ge i w.opened with hbefore | hle
      · exact hold i hi hbefore (hc ▸ hne)
      · exact hnew i hle hlt hne
  | moved reply v minor _ hlast hc hsame _ _ _ =>
      have hsock : (after r).1.sock = v.sock := by rw [hc]
      obtain ⟨hle, hlt⟩ := htrail.mem_socks.mp (List.mem_map_of_mem (List.mem_of_getLast? hlast))
      refine ⟨by omega, by omega, fun i hi hlt hne => ?_, hothers⟩
      rcases Nat.lt_or_ge i w.opened with hbefore | hafter
      · by_cases heq : i = c.sock
        · rw [heq, hsame]
          rfl
        · exact hold i hi hbefore heq
      · exact hnew i hafter hlt hne

/-- **A statement** leaves the connection's own socket open at most, wherever it was redirected. -/
theorem execute (h : Alone w₀ c w) (script : Str) (ps : List (Str × Value)) :
    Alone w₀ (after (Connection.execute script ps (c, w))).1
      (after (Connection.execute script ps (c, w))).2 := by
  rcases Connection.execute_spec script ps h.opened with ⟨hexecute, -⟩ |
    ⟨first, redirect, s₁, s₂, -, -, hrest⟩
  · rw [hexecute]
    exact h.stays (Connection.ask_stays script ps c w)
  have hspent : ∀ s, Alone w₀ c.spent (w.put c.sock s) := h.put rfl
  rcases hrest with ⟨e, -, hexecute⟩ | ⟨selecting, visits, -, htrail, -⟩
  · rw [hexecute]
    exact hspent s₂
  · exact (hspent s₂).trail htrail

/-- A vault frame goes out on the connection's own socket. -/
theorem vault (h : Alone w₀ c w) (body : Option (Str × Str) → Writer) :
    Alone w₀ (after (Connection.vault body (c, w))).1
      (after (Connection.vault body (c, w))).2 := by
  refine h.stays ?_
  rcases Connection.vault_spec body c w with ⟨-, e, hrun⟩ | ⟨-, e, -, hrun⟩ |
    ⟨-, raw, s', r, -, -, hrun⟩
  · rw [hrun]
    exact ⟨c, _, by rw [World.put_self]; rfl, .inl rfl⟩
  · rw [hrun]
    exact ⟨c.spent, _, by rw [World.put_self]; rfl, .inr rfl⟩
  · rw [hrun]
    exact ⟨c.spent, s', by rw [after_settle], .inr rfl⟩

/-- So does a subscription. -/
theorem subscribe (h : Alone w₀ c w) (from_ : ℤ) (table cursor condition : Option Str)
    (parameters : Option (List (Str × Value))) :
    Alone w₀ (after (Connection.subscribe from_ table cursor condition parameters (c, w))).1
      (after (Connection.subscribe from_ table cursor condition parameters (c, w))).2 := by
  rw [Connection.subscribe_run]
  split
  · exact h
  split
  · exact h
  cases subscribeBody from_ table cursor condition parameters with
  | error e => exact h
  | ok body =>
      rw [Connection.attempt_bind]
      cases hsend : Frames.send Frames.SUBSCRIBE body (w.sockets c.sock) with
      | error e s =>
          rw [bind_of_error (Connection.onSocket_of_error hsend)]
          exact h.put rfl s
      | ok _ s =>
          rw [bind_of_ok (Connection.onSocket_of_ok hsend)]
          exact h.put (by rfl) s

end Alone

/-- A step of a feed happens on the connection's own socket. -/
theorem Subscription.next_stays (sub : Subscription) (w : World) :
    ∃ sub' s', after (next (sub, w)) = (sub', w.put sub.conn.sock s') ∧ sub'.conn = sub.conn := by
  cases hread : Frames.read (sub.socket w) with
  | error e s' =>
      by_cases htessari : e.isTessari = true
      · rw [next_of_error hread htessari]
        exact ⟨sub, _, rfl, rfl⟩
      · have hrun : onConnection (Connection.onSocket Frames.read) (sub, w) =
            .error e (sub, w.put sub.conn.sock s') := by
          rw [onConnection, Connection.onSocket_of_error hread]
        rw [next, bind_of_error]
        · exact ⟨sub, s', rfl, rfl⟩
        · rw [tryCatch_of_error hrun, if_neg htessari]
          rfl
  | ok frame s' =>
      have hrun := tryCatch_of_ok (onConnection_of_ok (Connection.onSocket_of_ok hread))
        fun e => do
          if e.isTessari then onConnection Connection.close
          throw e
      rw [next, bind_of_ok hrun]
      cases frame with
      | none =>
          refine ⟨sub, s'.close, ?_, rfl⟩
          dsimp only
          rw [bind_of_ok (close_run ..), World.close, World.put_sockets_self, World.put_put]
          rfl
      | some frame =>
          have hhandle := handle_eq frame.1 frame.2 sub (w.put sub.conn.sock s')
          dsimp only
          rcases hframe : Event.ofFrame frame.1 frame.2 with - | e | event
          · rw [hframe] at hhandle
            rw [bind_of_error hhandle, World.close, World.put_sockets_self, World.put_put]
            exact ⟨sub, s'.close, rfl, rfl⟩
          · rw [hframe] at hhandle
            rw [bind_of_error hhandle]
            exact ⟨sub, s', rfl, rfl⟩
          · rw [hframe] at hhandle
            rw [bind_of_ok hhandle]
            exact ⟨_, s', rfl, rfl⟩

theorem Alone.next {w₀ w : World} {sub : Subscription} (h : Alone w₀ sub.conn w) :
    Alone w₀ (after (Subscription.next (sub, w))).1.conn
      (after (Subscription.next (sub, w))).2 := by
  obtain ⟨sub', s', hafter, hconn⟩ := sub.next_stays w
  rw [hafter]
  exact h.put (congrArg Connection.sock hconn) s'

/-! ### Calls of the vault -/

/-- A computation on a connection that leaves its own socket open at most. -/
abbrev Vault.Lone (w₀ : World) {α : Type} (m : Vaulting α) : Prop :=
  Lockstep (Keeping fun cw => Alone w₀ cw.1 cw.2) Eq m m

namespace Vault

variable {w₀ : World}

theorem lone_send (r : Rendered Value) : Lone w₀ (send r) :=
  .adaptExcept _ (lockstep_keeping.mpr fun _ h => h.execute r.script r.parameters)

theorem lone_value (r : Rendered Value) : Lone w₀ (value r) :=
  (lone_send r).bind_eq fun _ => .settle _

/-- A statement, and something made of its answer. -/
theorem lone_answer {α : Type} (x : Except Rejected (Rendered Value))
    (read : Value → Except VaultRaised α) :
    Lone w₀ (do
      let r ← rendering x
      let answer ← value r
      attempt (read answer)) :=
  .bind_eq (.settle _) fun r => (lone_value r).bind_eq fun _ => .settle _

section

variable (python : Interpreter) (outside : ℤ → VaultStatus.LibraryRaised)

theorem lone_act (body : Option (Str × Str) → Writer) : Lone w₀ (act python outside body) :=
  .bind_eq (.adaptExcept _ (lockstep_keeping.mpr fun _ h => h.vault body)) fun _ => .settle _

theorem lone_declare (s : VaultStatements) (passphrase : Str) :
    Lone w₀ (declare python outside s passphrase) := by
  have hget : Lone w₀ (get : Vaulting (Connection × World)) := fun _ _ h => .ok h.1 h
  refine hget.bind_eq fun cw => ?_
  dsimp only
  split
  · exact .throw _
  · exact lone_act python outside _

/-- **A call** leaves the connection's own socket open at most. -/
theorem lone_perform (call : Call) : Lone w₀ (call.perform python outside) := by
  have hmap : ∀ {α : Type} {m : Vaulting α} (k : α → Answer), Lone w₀ m → Lone w₀ (k <$> m) :=
    fun k h => h.map fun _ _ => congrArg k
  match call with
  | .execute script ps => exact hmap _ (lone_send _)
  | .storeStatus => exact hmap _ (lone_act _ _ _)
  | .storeUnseal passphrase => exact hmap _ (lone_act _ _ _)
  | .storeSeal => exact hmap _ (lone_act _ _ _)
  | .storeChangePassphrase current new => exact hmap _ (lone_act _ _ _)
  | .audit inNamespace inDatabase by_ => exact hmap _ (lone_answer _ _)
  | .status s => exact hmap _ (lone_act _ _ _)
  | .unseal s passphrase => exact hmap _ (lone_act _ _ _)
  | .seal s => exact hmap _ (lone_act _ _ _)
  | .changePassphrase s current new => exact hmap _ (lone_act _ _ _)
  | .declare s passphrase => exact hmap _ (lone_declare _ _ s passphrase)
  | .list s after limit => exact hmap _ (lone_answer _ _)
  | .reveal s record fields => exact hmap _ (lone_answer _ _)
  | .write s record fields =>
      exact hmap _ (.bind_eq (.settle _) fun r => (lone_send r).discard)
  | .recipients s record => exact hmap _ ((lone_value _).bind_eq fun _ => .settle _)
  | .addRecipient s record name key => exact hmap _ (lone_send _).discard
  | .removeRecipient s record name => exact hmap _ (lone_send _).discard

end

end Vault

/-! ### Whole lives -/

/-- What a connection may have been through since it was dialled: calls, subscriptions, steps of a
feed and its closing, in any order, whatever each of them came to. -/
inductive Lived (python : Interpreter) (outside : ℤ → VaultStatus.LibraryRaised)
    (c₁ : Connection) (w₁ : World) : Connection → World → Prop
  | dialled : Lived python outside c₁ w₁ c₁ w₁
  | called {c : Connection} {w : World} (before : Lived python outside c₁ w₁ c w)
      (call : Vault.Call) :
      Lived python outside c₁ w₁ (after (call.perform python outside (c, w))).1
        (after (call.perform python outside (c, w))).2
  | subscribed {c : Connection} {w : World} (before : Lived python outside c₁ w₁ c w) (from_ : ℤ)
      (table cursor condition : Option Str) (parameters : Option (List (Str × Value))) :
      Lived python outside c₁ w₁
        (after (Connection.subscribe from_ table cursor condition parameters (c, w))).1
        (after (Connection.subscribe from_ table cursor condition parameters (c, w))).2
  | fed {sub : Subscription} {w : World} (before : Lived python outside c₁ w₁ sub.conn w) :
      Lived python outside c₁ w₁ (after (Subscription.next (sub, w))).1.conn
        (after (Subscription.next (sub, w))).2
  | closed {c : Connection} {w : World} (before : Lived python outside c₁ w₁ c w) :
      Lived python outside c₁ w₁ c (w.close c.sock)

theorem Lived.alone {python : Interpreter} {outside : ℤ → VaultStatus.LibraryRaised}
    {c₁ c : Connection} {w₀ w₁ w : World} (h : Lived python outside c₁ w₁ c w)
    (hdialled : Alone w₀ c₁ w₁) : Alone w₀ c w := by
  induction h with
  | dialled => exact hdialled
  | called _ call ih => exact lockstep_keeping.mp (Vault.lone_perform python outside call) _ ih
  | subscribed _ from_ table cursor condition parameters ih =>
      exact ih.subscribe from_ table cursor condition parameters
  | fed _ ih => exact ih.next
  | closed _ ih => exact ih.put rfl _

/-- **One open socket.** Where dialling fails, every socket it opened is closed. Where it comes to
a connection, then whatever that goes through, and however it is redirected meanwhile: of all
sockets opened since it was dialled none is open but its own, nothing has happened on any socket
from before, and once the connection is closed no socket of its life is open. -/
theorem one_socket_is_open (python : Interpreter) (outside : ℤ → VaultStatus.LibraryRaised)
    (address : Str) (user password : Option Str) (w₀ : World) :
    match Connection.connect address user password w₀ with
    | .error _ w => ∀ i, w₀.opened ≤ i → i < w.opened → (w.sockets i).closed = true
    | .ok c₁ w₁ => ∀ c w, Lived python outside c₁ w₁ c w →
        (∀ i, w₀.opened ≤ i → i < w.opened → i ≠ c.sock → (w.sockets i).closed = true) ∧
        (∀ i, i < w₀.opened → w.sockets i = w₀.sockets i) ∧
        ∀ i, w₀.opened ≤ i → i < w.opened → ((w.close c.sock).sockets i).closed = true := by
  rcases Connection.connect_spec address user password w₀ with ⟨e, w, hconnect, -, hopened⟩ |
    ⟨e, w, s, hconnect, hsockets, hopened, hclosed, -⟩ |
    ⟨minor, w₁, s, hconnect, hsockets, hopened, -⟩
  · rw [hconnect]
    intro i hi hlt
    omega
  · rw [hconnect]
    intro i hi hlt
    obtain rfl : i = w₀.opened := by omega
    rw [hsockets, Function.update_self]
    exact hclosed
  · rw [hconnect]
    have hfirst : Alone w₀ ⟨w₀.opened, user, password, user.isSome, false, minor⟩ w₁ :=
      ⟨le_rfl, hopened ▸ Nat.lt_succ_self _,
        fun i hi hlt hne => absurd (Nat.le_antisymm (by omega) hi) hne,
        fun i hi => by rw [hsockets, Function.update_of_ne hi.ne]⟩
    intro c w hlived
    have halone := hlived.alone hfirst
    exact ⟨halone.closed, halone.others, halone.close⟩

/-- A node that says the session lives on `b:1` now, and `b:1`, which answers. -/
def Follow.moving : World where
  sockets _ := .opened ⟨[], .eof⟩ 0
  opened := 0
  dials := [.opened (.whole (Frames.GREETING ++ (elsewhereFrame 0x42 1 [0x62, 0x3A, 0x31] ++
      Frames.frame Frames.ANSWER (valueAnswer [0x0D, 0, 0, 0, 0]))) .eof) 3,
    .opened (.whole (Frames.GREETING ++ (contextFrame 0x42 ++
      Frames.frame Frames.ANSWER (valueAnswer [0x02]))) .eof) 3]
  isDigit c := c == codePoint 0x31
  repr _ := ""

/-- The world in which a connection to the first of them was opened. -/
def Follow.moved : World := after (Connection.connect (ofString "a:1") none none moving)

theorem Follow.connect_moving :
    Connection.connect (ofString "a:1") none none moving = .ok nobody moved := by
  change _ = EStateM.Result.ok (⟨0, none, none, false, false, 4⟩ : Connection)
    (after (Connection.connect (ofString "a:1") none none moving))
  rfl

/-- A statement moves the connection to `b:1`, which closes the first socket; then the connection
is closed. -/
theorem one_socket_is_open_moved :
    ∃ c w, Lived (JsonValues.asciiInterpreter 0 JsonValues.unlimited) (fun _ => .osError)
        Follow.nobody Follow.moved c w ∧ c.sock = 1 ∧ w.opened = 2 ∧
      ∀ i, i < w.opened → (w.sockets i).closed = true := by
  have hmain := one_socket_is_open (JsonValues.asciiInterpreter 0 JsonValues.unlimited)
    (fun _ => .osError) (ofString "a:1") none none Follow.moving
  rw [Follow.connect_moving] at hmain
  obtain ⟨c, w, hlived, hsock, hopened⟩ : ∃ c w,
      Lived (JsonValues.asciiInterpreter 0 JsonValues.unlimited) (fun _ => .osError)
        Follow.nobody Follow.moved c w ∧ c.sock = 1 ∧ w.opened = 2 :=
    ⟨_, _, .called .dialled (.execute (ofString "RETURN 1;") []), by decide +kernel,
      by decide +kernel⟩
  exact ⟨c, w.close c.sock, hlived.closed, hsock, hopened,
    fun i hi => (hmain c w hlived).2.2 i (Nat.zero_le _) hi⟩

end TessariDB
