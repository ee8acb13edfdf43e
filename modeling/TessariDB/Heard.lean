import TessariDB.Follow
import TessariDB.Session
import TessariDB.StatementReading

/-!
# What the Nodes Hear

Statements are built, executed over a connection and, where a node redirects them, over others.
What goes out on a socket is a stream of frames; a node cuts it into requests, reads each body,
and reads a script as the statement it is. `askedOn` is all that a node has been asked by then.

A computation of the client `Utters` scripts in their order: it sends a first part of them on its
own socket, and all of them where it returns. The client's own scripts (the question for the
tenancy, and its selection) are no statements, so a node does not hear one in them; besides them and
the statements nothing goes out.

## Main results

* `Utters.bind`: what two computations utter, one after the other.
* `executed`: what one statement leaves on every socket.
* `nodes_hear_what_was_built`: on every socket, the statements that were built, each as it was
  built, in their order and none of them twice, and besides them only the client's own scripts.
-/

namespace TessariDB

open ByteCodec ByteStream Utf8 BigEndian Connection

/-! ### Frames of a stream -/

namespace Frames

/-- The frames a stream is made of, with so many of them at most. -/
def unframeLoop : ℕ → Bytes → Option (List (ℕ × Bytes))
  | 0, _ => none
  | _ + 1, [] => some []
  | fuel + 1, kind :: rest =>
      let length := ofBytes (rest.take 4)
      if rest.length < 4 + length then none
      else (unframeLoop fuel (rest.drop (4 + length))).map
        (((kind.toNat, (rest.drop 4).take length)) :: ·)

def unframe (raw : Bytes) : Option (List (ℕ × Bytes)) := unframeLoop (raw.length + 1) raw

/-- **A stream of frames is cut where it was put together.** -/
theorem unframe_wire {frames : List (ℕ × Bytes)}
    (h : ∀ f ∈ frames, f.1 < 256 ∧ f.2.length ≤ CEILING) : unframe (wire frames) = some frames := by
  have hloop : ∀ fuel, (wire frames).length < fuel → unframeLoop fuel (wire frames) = some frames := by
    induction frames with
    | nil =>
        intro fuel hfuel
        obtain ⟨fuel, rfl⟩ : ∃ n, fuel = n + 1 := ⟨fuel - 1, by omega⟩
        rfl
    | cons f frames ih =>
        intro fuel hfuel
        obtain ⟨fuel, rfl⟩ : ∃ n, fuel = n + 1 := ⟨fuel - 1, by omega⟩
        obtain ⟨hkind, hbody⟩ := h f List.mem_cons_self
        have hbytes : ofBytes (toBytes 4 f.2.length) = f.2.length :=
          ofBytes_toBytes (ofBytes_length_lt hbody)
        have hsplit : wire (f :: frames) =
            UInt8.ofNat f.1 :: (toBytes 4 f.2.length ++ (f.2 ++ wire frames)) := by
          rw [wire, List.flatMap_cons, frame, List.cons_append, List.append_assoc]
          rfl
        have hlength : (toBytes 4 f.2.length).length = 4 := length_toBytes ..
        have hrest := ih (fun f hf => h f (List.mem_cons_of_mem _ hf)) fuel (by
          rw [hsplit, List.length_cons, List.length_append, List.length_append] at hfuel
          omega)
        have hlong : ¬ (toBytes 4 f.2.length ++ (f.2 ++ wire frames)).length < 4 + f.2.length := by
          rw [List.length_append, List.length_append]
          omega
        rw [hsplit, unframeLoop, List.take_left' hlength, hbytes, if_neg hlong, List.drop_left' hlength,
          List.take_left, ← List.drop_drop, List.drop_left' hlength, List.drop_left, hrest,
          Utf8.toNat_ofNat hkind]
        rfl
  exact hloop _ (Nat.lt_succ_self _)

end Frames

/-! ### Hearing -/

/-- A script with its parameters. -/
abbrev Script := Str × List (Str × Value)

section

variable {α : Type} (take : Script → Option α)

/-- What a node hears in a frame, when it takes scripts so. -/
def listenIn (f : ℕ × Bytes) : Option α :=
  if f.1 = Frames.REQUEST then
    match readRequest f.2 with
    | .ok (m, []) => take (m.script, m.parameters)
    | _ => none
  else none

/-- What a node has heard behind the greeting. -/
def listenOn (s : Socket) : Option (List α) :=
  (Frames.unframe s.sent.tail.flatten).map (List.filterMap (listenIn take))

/-- What is heard in a script, with its values as they are written. -/
def Script.taken (p : Script) : Option α := take (p.1, Dict.mapValues Value.canon p.2)

end

/-- The statement of a request, with the parameters looked up. -/
def RequestMessage.heard (m : RequestMessage) : Option (Statement (Option Value)) :=
  (Statement.readWhole m.script).map (Statement.map fun reference =>
    Dict.get? m.parameters reference.text)

/-- The script of a frame, if it is a request. -/
def askedIn : ℕ × Bytes → Option Script := listenIn some

/-- The scripts that a node has been asked behind the greeting, if every frame is a request. -/
def askedOn (s : Socket) : Option (List Script) :=
  (Frames.unframe s.sent.tail.flatten).bind (List.mapM askedIn)

/-- A script with its values as they are written. -/
def Script.canon (p : Script) : Script := (p.1, Dict.mapValues Value.canon p.2)

/-- A script in the request that it went out in. -/
inductive Said : Script → ℕ × Bytes → Prop
  | request {credentials : Option (Str × Str)} {script : Str} {ps : List (Str × Value)}
      {body : Bytes} (hkeyed : ∀ p ∈ ps, p.2.Keyed)
      (hbody : requestBody script credentials ps = .ok body)
      (hle : body.length ≤ Frames.CEILING) : Said (script, ps) (Frames.REQUEST, body)

theorem Said.listenIn_eq {α : Type} (take : Script → Option α) {p : Script} {f : ℕ × Bytes}
    (h : Said p f) : listenIn take f = p.taken take := by
  obtain ⟨hkeyed, hbody, -⟩ := h
  next credentials script ps body =>
  -- A login that is presented has its password.
  have hpresented : presented (credentials.map fun login => (login.1, some login.2)) =
      credentials := by
    cases credentials <;> rfl
  have hsent : RequestArgs.body ⟨script, credentials.map fun login => (login.1, some login.2), ps,
      hkeyed⟩ = .ok body := by
    rw [RequestArgs.body, hpresented]
    exact hbody
  have hread := RequestArgs.read_body hsent
  rw [listenIn, if_pos rfl, hread]
  rfl

/-- The scripts that went out on a socket after its greeting, in their order. -/
def Carries (said : List Script) (s : Socket) : Prop :=
  ∃ requests, s.sent.tail = requests.map (fun f => Frames.frame f.1 f.2) ∧
    List.Forall₂ Said said requests

/-- The frames of a socket are the requests that went out. -/
theorem Carries.unframe_eq {said : List Script} {s : Socket} (h : Carries said s) :
    ∃ requests, Frames.unframe s.sent.tail.flatten = some requests ∧
      List.Forall₂ Said said requests := by
  obtain ⟨requests, hsent, hsaid⟩ := h
  have hwire : s.sent.tail.flatten = Frames.wire requests := by
    rw [hsent, Frames.wire, List.flatMap_def]
  have hsmall : ∀ f ∈ requests, f.1 < 256 ∧ f.2.length ≤ Frames.CEILING := by
    intro f hf
    obtain ⟨p, -, -, -, hle⟩ := exists_of_mem_forall₂ hsaid hf
    exact ⟨(by decide : Frames.REQUEST < 256), hle⟩
  exact ⟨requests, by rw [hwire, Frames.unframe_wire hsmall], hsaid⟩

/-- **A node hears what went out.** -/
theorem Carries.listenOn_eq {α : Type} (take : Script → Option α) {said : List Script} {s : Socket}
    (h : Carries said s) : listenOn take s = some (said.filterMap (Script.taken take)) := by
  obtain ⟨requests, hframes, hsaid⟩ := h.unframe_eq
  rw [listenOn, hframes, Option.map_some]
  congr 1
  clear h hframes
  induction hsaid with
  | nil => rfl
  | cons hsaid _ ih => rw [List.filterMap_cons, List.filterMap_cons, hsaid.listenIn_eq take, ih]

/-- **A node is asked what went out**, and every frame is a request. -/
theorem Carries.askedOn_eq {said : List Script} {s : Socket} (h : Carries said s) :
    askedOn s = some (said.map Script.canon) := by
  obtain ⟨requests, hframes, hsaid⟩ := h.unframe_eq
  rw [askedOn, hframes, Option.bind_some]
  clear h hframes
  induction hsaid with
  | nil => rfl
  | @cons p f said requests hsaid _ ih =>
      have hfirst : askedIn f = some p.canon := hsaid.listenIn_eq some
      rw [List.mapM_cons, hfirst, ih]
      rfl

theorem Carries.congr {said : List Script} {s s' : Socket} (h : Carries said s)
    (hsent : s'.sent = s.sent) : Carries said s' := by
  obtain ⟨requests, htail, hsaid⟩ := h
  exact ⟨requests, hsent ▸ htail, hsaid⟩

theorem Carries.concat {said : List Script} {s s' : Socket} {p : Script} {f : ℕ × Bytes}
    (h : Carries said s) (hne : s.sent ≠ []) (hp : Said p f)
    (hsent : s'.sent = s.sent ++ [Frames.frame f.1 f.2]) : Carries (said ++ [p]) s' := by
  obtain ⟨requests, htail, hsaid⟩ := h
  refine ⟨requests ++ [f], ?_, List.rel_append hsaid (.cons hp .nil)⟩
  rw [hsent, List.tail_append_of_ne_nil hne, htail, List.map_append]
  rfl

/-! ### Uttering -/

/-- A socket that was greeted over, and what went out on it. -/
structure Spoken (said : List Script) (s : Socket) : Prop where
  greeted : s.sent ≠ []
  carries : Carries said s

/-- A computation sends a first part of these scripts on its socket, and all of them where it
returns. It touches no other socket. -/
def Utters {α : Type} (scripts : List Script) (m : Client α) : Prop :=
  ∀ (c : Connection) (w : World) (said : List Script), Spoken said (w.sockets c.sock) →
    ∃ uttered, uttered <+: scripts ∧ (∀ a, outcome (m (c, w)) = .ok a → uttered = scripts) ∧
      ∃ c' s', after (m (c, w)) = (c', w.put c.sock s') ∧ c'.sock = c.sock ∧
        Spoken (said ++ uttered) s'

namespace Utters

variable {α β : Type} {m : Client α} {f : α → Client β} {us vs : List Script}

theorem attempt (x : Except Raised α) : Utters [] (Connection.attempt x) := by
  intro c w said h
  refine ⟨[], List.prefix_rfl, fun _ _ => rfl, c, w.sockets c.sock, ?_, rfl, ?_⟩
  · rw [Connection.attempt, after_settle, World.put_self]
  · rwa [List.append_nil]

/-- **One computation after another.** -/
theorem bind (hm : Utters us m) (hf : ∀ a, Utters vs (f a)) : Utters (us ++ vs) (m >>= f) := by
  intro c w said h
  obtain ⟨uttered, hpre, hall, c₁, s₁, hafter, hsock, hspoken⟩ := hm c w said h
  cases hrun : m (c, w) with
  | error e cw =>
      rw [bind_of_error hrun]
      rw [hrun] at hafter
      refine ⟨uttered, hpre.trans (List.prefix_append _ _), ?_, c₁, s₁, hafter, hsock, hspoken⟩
      intro _ ha
      cases ha
  | ok a cw =>
      rw [hrun] at hall hafter
      obtain rfl : uttered = us := hall a rfl
      obtain rfl : cw = (c₁, w.put c.sock s₁) := hafter
      have hself : Spoken (said ++ uttered) ((w.put c.sock s₁).sockets c₁.sock) := by
        rwa [hsock, World.put_sockets_self]
      obtain ⟨more, hpre', hall', c₂, s₂, hafter', hsock', hspoken'⟩ := hf a c₁ _ _ hself
      rw [hsock, World.put_put] at hafter'
      rw [bind_of_ok hrun]
      refine ⟨uttered ++ more, (List.prefix_append_right_inj _).mpr hpre', fun b hb => ?_, c₂, s₂,
        hafter', hsock'.trans hsock, ?_⟩
      · rw [hall' b hb]
      · rwa [← List.append_assoc]

theorem discard (hm : Utters us m) : Utters us (discard m) := by
  intro c w said h
  obtain ⟨uttered, hpre, hall, hrest⟩ := hm c w said h
  refine ⟨uttered, hpre, fun _ ha => ?_, ?_⟩
  · cases hrun : m (c, w) with
    | error e cw =>
        rw [discard_of_error hrun] at ha
        cases ha
    | ok a cw => exact hall a (congrArg outcome hrun)
  · rwa [after_discard]

/-- A statement. -/
theorem ask (script : Str) {ps : List (Str × Value)} (hkeyed : ∀ p ∈ ps, p.2.Keyed) :
    Utters [(script, ps)] (Connection.ask script ps) := by
  intro c w said h
  -- Where nothing goes out, the statement is not answered.
  have hunsent : ∀ {e : Raised} (c' : Connection) (s' : Socket), c'.sock = c.sock →
      s'.sent = (w.sockets c.sock).sent →
      Connection.ask script ps (c, w) = .error e (c', w.put c.sock s') →
      ∃ uttered, uttered <+: [(script, ps)] ∧
        (∀ a, outcome (Connection.ask script ps (c, w)) = .ok a → uttered = [(script, ps)]) ∧
        ∃ c' s', after (Connection.ask script ps (c, w)) = (c', w.put c.sock s') ∧
          c'.sock = c.sock ∧ Spoken (said ++ uttered) s' := by
    intro e c' s' hsock hsent hask
    rw [hask]
    refine ⟨[], List.nil_prefix, ?_, c', s', rfl, hsock, hsent ▸ h.greeted, ?_⟩
    · intro _ ha
      cases ha
    · rw [List.append_nil]
      exact h.carries.congr hsent
  rcases ask_spec script ps c w with ⟨-, e, hask⟩ | ⟨-, e, -, hask⟩ |
    ⟨-, body, s', r, hbody, hr, hask⟩
  · exact hunsent c (w.sockets c.sock) rfl rfl (by rw [World.put_self, hask])
  · refine hunsent (c.requested script) (w.sockets c.sock) ?_ rfl
      (by rw [World.put_self, hask])
    exact Follow.sock_of_spent (requested_eq c script)
  · have hsent : ∀ {t : Socket}, body.length ≤ Frames.CEILING →
        t.sent = ((w.sockets c.sock).wrote (Frames.frame Frames.REQUEST body)).sent →
        Spoken (said ++ [(script, ps)]) t := fun {t} hle ht =>
      ⟨by rw [ht]; exact List.append_ne_nil_of_right_ne_nil _ (List.cons_ne_nil _ _),
        h.carries.concat h.greeted (.request hkeyed hbody hle) ht⟩
    cases hr with
    | unsent e _ => exact hunsent c.spent _ rfl rfl hask
    | answered k b _ hle _ _ hadv =>
        rw [hask, after_settle]
        exact ⟨_, List.prefix_rfl, fun _ _ => rfl, _, _, rfl, rfl, hsent hle hadv.sent⟩
    | broken e b t hle _ _ hadv =>
        rw [hask, after_settle]
        exact ⟨_, List.prefix_rfl, fun _ _ => rfl, _, _, rfl, rfl, hsent hle hadv.sent⟩

theorem answered (script : Str) : Utters [(script, [])] (Follow.answered script) :=
  (ask script (List.forall_mem_nil _)).bind fun _ => attempt _

theorem context : Utters [(Follow.CONTEXT, [])] Follow.context :=
  (answered Follow.CONTEXT).bind fun _ => attempt _

theorem selection : Utters [(Follow.CONTEXT, [])] Follow.selection :=
  context.bind fun _ => attempt _

/-- The `try` block of `followed`. -/
theorem visit (script : Str) {ps : List (Str × Value)} (hkeyed : ∀ p ∈ ps, p.2.Keyed)
    (selecting : Str) (redirect : Elsewhere) :
    Utters (Follow.statements script ps selecting) (Follow.visit script ps selecting redirect) := by
  refine context.bind fun fields =>
    (Utters.bind (attempt (Follow.vet redirect fields)) fun _ => ?_ : Utters ([] ++ _) _)
  by_cases hsel : selecting = []
  · simp only [hsel, ne_eq, not_true, if_true, if_false]
    exact ask script hkeyed
  · simp only [hsel, ne_eq, not_false_eq_true, if_true, if_false]
    exact (answered selecting).discard.bind fun _ => ask script hkeyed

end Utters

/-! ### Every socket -/

/-- What went out on each socket opened from `base` on. -/
structure Logged (base : ℕ) (log : ℕ → List Script) (w : World) : Prop where
  carries : ∀ i, base ≤ i → i < w.opened → Carries (log i) (w.sockets i)
  fresh : ∀ i, w.opened ≤ i → log i = []

/-- A connection over one of these sockets. -/
structure Held (base : ℕ) (c : Connection) (w : World) : Prop where
  base : base ≤ c.sock
  opened : c.sock < w.opened
  greeted : (w.sockets c.sock).sent ≠ []

/-- Something else on the sockets that there were. -/
theorem Logged.put {base : ℕ} {log : ℕ → List Script} {w : World} (h : Logged base log w)
    {sock : ℕ} (hsock : sock < w.opened) {said : List Script} {s : Socket} (hs : Carries said s) :
    Logged base (Function.update log sock said) (w.put sock s) where
  carries i hbase hi := by
    by_cases heq : i = sock
    · subst heq
      rwa [Function.update_self, World.put_sockets_self]
    · rw [Function.update_of_ne heq, World.put_sockets_of_ne w heq]
      exact h.carries i hbase hi
  fresh i hi := by
    rw [World.put_opened] at hi
    rw [Function.update_of_ne (by omega)]
    exact h.fresh i hi

theorem Logged.close {base : ℕ} {log : ℕ → List Script} {w : World} (h : Logged base log w)
    {sock : ℕ} (hbase : base ≤ sock) (hsock : sock < w.opened) :
    Logged base log (w.close sock) := by
  have hcarries : Carries (log sock) (w.sockets sock).close :=
    (h.carries sock hbase hsock).congr rfl
  have hput := h.put hsock hcarries
  rwa [Function.update_eq_self] at hput

/-- One more socket, over which nothing was asked. -/
theorem Logged.accept {base : ℕ} {log : ℕ → List Script} {w w' : World} (h : Logged base log w)
    {s : Socket} (hsockets : w'.sockets = Function.update w.sockets w.opened s)
    (hopened : w'.opened = w.opened + 1) (hs : s.sent.tail = []) : Logged base log w' where
  carries i hbase hi := by
    rw [hsockets]
    by_cases heq : i = w.opened
    · subst heq
      rw [Function.update_self, h.fresh _ le_rfl]
      exact ⟨[], hs, .nil⟩
    · rw [Function.update_of_ne heq]
      exact h.carries i hbase (by omega)
  fresh i hi := h.fresh i (by omega)

/-- What a computation of a connection does to the sockets. -/
theorem Utters.logged {α : Type} {scripts : List Script} {m : Client α} (hm : Utters scripts m)
    {base : ℕ} {log : ℕ → List Script} {c : Connection} {w : World} (h : Logged base log w)
    (hc : Held base c w) :
    ∃ uttered, uttered <+: scripts ∧ (∀ a, outcome (m (c, w)) = .ok a → uttered = scripts) ∧
      Logged base (Function.update log c.sock (log c.sock ++ uttered)) (after (m (c, w))).2 ∧
      Held base (after (m (c, w))).1 (after (m (c, w))).2 ∧
      (after (m (c, w))).1.sock = c.sock ∧ (after (m (c, w))).2.opened = w.opened ∧
      ∀ i, i ≠ c.sock → (after (m (c, w))).2.sockets i = w.sockets i := by
  obtain ⟨uttered, hpre, hall, c', s', hafter, hsock, hspoken⟩ :=
    hm c w (log c.sock) ⟨hc.greeted, h.carries _ hc.base hc.opened⟩
  refine ⟨uttered, hpre, hall, ?_⟩
  rw [hafter]
  refine ⟨h.put hc.opened hspoken.carries, ⟨hsock ▸ hc.base, hsock ▸ hc.opened, ?_⟩, hsock, rfl,
    fun i hi => World.put_sockets_of_ne w hi s'⟩
  rw [hsock, World.put_sockets_self]
  exact hspoken.greeted

/-- What following leaves: nothing more on the sockets that there were, and on each new one a
first part of what is asked of a new node. -/
structure Relayed (base : ℕ) (scripts : List Script) (log : ℕ → List Script) (c : Connection)
    (w : World) (r : EStateM.Result Raised (Connection × World) Reply)
    (log' : ℕ → List Script) : Prop where
  logged : Logged base log' (after r).2
  held : Held base (after r).1 (after r).2
  opened : w.opened ≤ (after r).2.opened
  old : ∀ i < w.opened, log' i = log i
  new : ∀ i, w.opened ≤ i → log' i <+: scripts
  answered : ∀ reply, outcome r = .ok reply → ∃ i, w.opened ≤ i ∧ i < (after r).2.opened ∧
    log' i = scripts

theorem relayed_of_error {base : ℕ} {scripts : List Script} {log : ℕ → List Script}
    {c : Connection} {w w' : World} {e : Raised} (h : Logged base log w') (hc : Held base c w')
    (hopened : w.opened ≤ w'.opened) (hfresh : ∀ i, w.opened ≤ i → log i = []) :
    Relayed base scripts log c w (.error e (c, w')) log where
  logged := h
  held := hc
  opened := hopened
  old _ _ := rfl
  new i hi := hfresh i hi ▸ List.nil_prefix
  answered _ h := by cases h

theorem Held.accept {base : ℕ} {c : Connection} {w w' : World} (h : Held base c w) {s : Socket}
    (hsockets : w'.sockets = Function.update w.sockets w.opened s)
    (hopened : w'.opened = w.opened + 1) : Held base c w' where
  base := h.base
  opened := by
    have := h.opened
    omega
  greeted := by
    rw [hsockets, Function.update_of_ne (Nat.ne_of_lt h.opened)]
    exact h.greeted

theorem Held.close {base : ℕ} {c : Connection} {w : World} (h : Held base c w) (sock : ℕ) :
    Held base c (w.close sock) where
  base := h.base
  opened := h.opened
  greeted := by
    by_cases heq : c.sock = sock
    · subst heq
      rw [World.close, World.put_sockets_self]
      exact h.greeted
    · rw [World.close, World.put_sockets_of_ne w heq]
      exact h.greeted

/-- What a visit leaves, when the new connection is closed or moved to. -/
theorem Relayed.visited {base : ℕ} {scripts uttered : List Script} {log : ℕ → List Script}
    {c c' : Connection} {w w' : World} {r : EStateM.Result Raised (Connection × World) Reply}
    (hr : after r = (c', w')) (hpre : uttered <+: scripts)
    (hall : ∀ reply, outcome r = .ok reply → uttered = scripts)
    (h : Logged base (Function.update log w.opened uttered) w') (hc : Held base c' w')
    (hopened : w'.opened = w.opened + 1) (hfresh : ∀ i, w.opened ≤ i → log i = []) :
    Relayed base scripts log c w r (Function.update log w.opened uttered) where
  logged := by rwa [hr]
  held := by rwa [hr]
  opened := by rw [hr, hopened]; exact Nat.le_succ _
  old i hi := Function.update_of_ne (Nat.ne_of_lt hi) ..
  new i hi := by
    by_cases heq : i = w.opened
    · subst heq
      rwa [Function.update_self]
    · rw [Function.update_of_ne heq, hfresh i hi]
      exact List.nil_prefix
  answered reply hreply := by
    refine ⟨w.opened, le_rfl, by rw [hr, hopened]; exact Nat.lt_succ_self _, ?_⟩
    rw [Function.update_self, hall reply hreply]

theorem followLoop_relayed (script : Str) {ps : List (Str × Value)}
    (hkeyed : ∀ p ∈ ps, p.2.Keyed) (selecting : Str) (left : ℕ) (redirect : Elsewhere) (floor : ℕ)
    {base : ℕ} {log : ℕ → List Script} {c : Connection} {w : World} (h : Logged base log w)
    (hc : Held base c w) :
    ∃ log', Relayed base (Follow.statements script ps selecting) log c w
      (Follow.followLoop script ps selecting left redirect floor (c, w)) log' := by
  induction left generalizing redirect floor w log with
  | zero => exact ⟨log, relayed_of_error h hc le_rfl h.fresh⟩
  | succ left ih =>
      rw [Follow.followLoop]
      dsimp only
      split
      · exact ⟨log, relayed_of_error h hc le_rfl h.fresh⟩
      rcases Connection.connect_spec redirect.endpoint c.user c.password w with
        ⟨e, w', hrun, hsockets, hopened⟩ | ⟨e, w', s, hrun, hsockets, hopened, -, hs⟩ |
        ⟨minor, w', s, hrun, hsockets, hopened, hs⟩
      · rw [hrun]
        have hlogged : Logged base log w' := ⟨by rw [hsockets, hopened]; exact h.carries,
          by rw [hopened]; exact h.fresh⟩
        have hheld : Held base c w' := ⟨hc.base, by rw [hopened]; exact hc.opened,
          by rw [hsockets]; exact hc.greeted⟩
        exact ⟨log, relayed_of_error hlogged hheld hopened.ge h.fresh⟩
      · rw [hrun]
        exact ⟨log, relayed_of_error (h.accept hsockets hopened hs.sent)
          (hc.accept hsockets hopened) (by omega) h.fresh⟩
      · rw [hrun]
        dsimp only
        generalize hthere : Connection.mk w.opened c.user c.password c.user.isSome false minor =
          there
        have hsock : there.sock = w.opened := by rw [← hthere]
        have hlogged : Logged base log w' := h.accept hsockets hopened (by rw [hs.sent]; rfl)
        have hheld : Held base there w' := by
          refine ⟨by rw [hsock]; exact hc.base.trans hc.opened.le, by omega, ?_⟩
          rw [hsock, hsockets, Function.update_self, hs.sent]
          exact List.cons_ne_nil _ _
        obtain ⟨uttered, hpre, hall, hlogged₁, hheld₁, hsock₁, hopened₁, hothers⟩ :=
          (Utters.visit script hkeyed selecting redirect).logged hlogged hheld
        rw [hsock] at hsock₁ hothers
        rw [hsock, h.fresh _ le_rfl, List.nil_append] at hlogged₁
        rw [hopened] at hopened₁
        -- The caller's own socket is not the new one.
        have hown : Held base c (after (Follow.visit script ps selecting redirect (there, w'))).2 := by
          refine ⟨hc.base, by rw [hopened₁]; exact Nat.lt_succ_of_lt hc.opened, ?_⟩
          rw [hothers _ (Nat.ne_of_lt hc.opened), hsockets,
            Function.update_of_ne (Nat.ne_of_lt hc.opened)]
          exact hc.greeted
        have hbase : base ≤ w.opened := hc.base.trans hc.opened.le
        cases hvisit : Follow.visit script ps selecting redirect (there, w') with
        | error e cw =>
            obtain ⟨there', w''⟩ := cw
            rw [hvisit] at hlogged₁ hsock₁ hopened₁ hown
            dsimp only [after] at hlogged₁ hsock₁ hopened₁ hown
            refine ⟨_, .visited rfl hpre (fun _ h => by cases h)
              (hlogged₁.close (hsock₁ ▸ hbase) (by omega)) (hown.close _) hopened₁ h.fresh⟩
        | ok reply cw =>
            obtain ⟨there', w''⟩ := cw
            rw [hvisit] at hall hlogged₁ hheld₁ hsock₁ hopened₁ hown
            dsimp only [after] at hlogged₁ hheld₁ hsock₁ hopened₁ hown
            have hshut := hlogged₁.close (hsock₁ ▸ hbase : base ≤ there'.sock) (by omega)
            have huttered := hall reply rfl
            dsimp only
            split
            · split
              · have hmoved : Held base (Follow.moveTo there' c w'').1 (w''.close c.sock) := by
                  have hclosed := hheld₁.close c.sock
                  exact ⟨hclosed.base, hclosed.opened, hclosed.greeted⟩
                exact ⟨_, .visited rfl hpre (fun _ _ => huttered)
                  (hlogged₁.close hc.base (by have := hc.opened; omega)) hmoved hopened₁ h.fresh⟩
              · exact ⟨_, .visited rfl hpre (fun _ _ => huttered) hshut (hown.close _) hopened₁
                  h.fresh⟩
            · next next_ hnext =>
              obtain ⟨log', hrelayed⟩ := ih next_ redirect.epoch hshut (hown.close there'.sock)
              have hopened₂ : (w''.close there'.sock).opened = w.opened + 1 := hopened₁
              refine ⟨log', hrelayed.logged, hrelayed.held, ?_, ?_, ?_, ?_⟩
              · exact (by omega : w.opened ≤ (w''.close there'.sock).opened).trans hrelayed.opened
              · intro i hi
                rw [hrelayed.old i (by omega), Function.update_of_ne (Nat.ne_of_lt hi)]
              · intro i hi
                by_cases heq : i = w.opened
                · subst heq
                  rwa [hrelayed.old _ (by omega), Function.update_self]
                · exact hrelayed.new i (by omega)
              · intro reply' hreply'
                obtain ⟨i, hi, hrest⟩ := hrelayed.answered reply' hreply'
                exact ⟨i, by omega, hrest⟩

/-! ### Whole runs -/

/-- The client's own scripts: the question who a node is and what a session has selected, and the
selection of a tenancy by names that the session had. -/
inductive OwnScript : Script → Prop
  | context : OwnScript (ofString "RETURN session::context();", [])
  | selection {fields : List (Str × Value)} {selecting : Str}
      (selects : Follow.Selects fields selecting) (ne : selecting ≠ []) :
      OwnScript (selecting, [])

theorem OwnScript.canon {p : Script} (h : OwnScript p) : p.canon = p := by
  cases h <;> rfl

/-- Scripts are taken so that the client's own are nothing. -/
structure Discerns {α : Type} (take : Script → Option α) : Prop where
  context : take (Follow.CONTEXT, []) = none
  selects : ∀ {fields : List (Str × Value)} {selecting : Str}, Follow.Selects fields selecting →
    take (selecting, []) = none

section Runs

variable {α : Type} {take : Script → Option α}

variable (take) in
/-- One script and the client's own, and the one script is heard at most once. -/
structure Once (p : Script) (scripts : List Script) : Prop where
  heard : (scripts.filterMap (Script.taken take)).Sublist ([p].filterMap (Script.taken take))
  sent : ∀ q ∈ scripts, q = p ∨ OwnScript q

theorem once_nil (p : Script) : Once take p [] := ⟨List.nil_sublist _, List.forall_mem_nil _⟩

theorem once_of_prefix {p : Script} {scripts more : List Script} (h : more <+: scripts)
    (hscripts : scripts.filterMap (Script.taken take) = [p].filterMap (Script.taken take))
    (hsent : ∀ q ∈ scripts, q = p ∨ OwnScript q) : Once take p more where
  heard := hscripts ▸ h.sublist.filterMap _
  sent q hq := hsent q (h.subset hq)

/-- **What one statement leaves on every socket**: itself once at most, besides the client's own
scripts, and itself last where it was answered. -/
theorem executed (hdiscerns : Discerns take) (script : Str) {ps : List (Str × Value)}
    (hkeyed : ∀ p ∈ ps, p.2.Keyed) {base : ℕ} {log : ℕ → List Script} {c : Connection}
    {w : World} (h : Logged base log w) (hc : Held base c w) :
    ∃ log', Logged base log' (after (Connection.execute script ps (c, w))).2 ∧
      Held base (after (Connection.execute script ps (c, w))).1
        (after (Connection.execute script ps (c, w))).2 ∧
      (∀ i, ∃ more, log' i = log i ++ more ∧ Once take (script, ps) more) ∧
      ∀ reply, outcome (Connection.execute script ps (c, w)) = .ok reply →
        ∃ i, base ≤ i ∧ i < (after (Connection.execute script ps (c, w))).2.opened ∧
          (log' i).getLast? = some (script, ps) := by
  have hcontext : Script.taken take (Follow.CONTEXT, []) = none := hdiscerns.context
  have hown : [(script, ps), (Follow.CONTEXT, [])].filterMap (Script.taken take) =
      [(script, ps)].filterMap (Script.taken take) := by
    rw [List.filterMap_cons, List.filterMap_cons, List.filterMap_cons, hcontext]
  have hownsent : ∀ q ∈ [(script, ps), (Follow.CONTEXT, [])], q = (script, ps) ∨ OwnScript q :=
    List.forall_mem_cons.mpr ⟨.inl rfl, List.forall_mem_singleton.mpr (.inr .context)⟩
  have hnothing : ∀ i, ∃ more, log i = log i ++ more ∧ Once take (script, ps) more := fun i =>
    ⟨[], (List.append_nil _).symm, once_nil _⟩
  -- On the connection's own socket the statement goes out, and the question for the tenancy.
  have hextended : ∀ {uttered : List Script}, uttered <+: [(script, ps), (Follow.CONTEXT, [])] →
      ∀ i, ∃ more, Function.update log c.sock (log c.sock ++ uttered) i = log i ++ more ∧
        Once take (script, ps) more := by
    intro uttered hpre i
    by_cases heq : i = c.sock
    · subst heq
      exact ⟨uttered, Function.update_self .., once_of_prefix hpre hown hownsent⟩
    · rw [Function.update_of_ne heq]
      exact hnothing i
  obtain ⟨uttered, hpre, hall, hlogged, hheld, hsock, hopened, -⟩ :=
    (Utters.ask script hkeyed).logged h hc
  have hfirst : uttered <+: [(script, ps), (Follow.CONTEXT, [])] :=
    hpre.trans (List.prefix_append [(script, ps)] [(Follow.CONTEXT, [])])
  cases hask : Connection.ask script ps (c, w) with
  | error e cw =>
      have hexecute : Connection.execute script ps (c, w) = .error e cw := bind_of_error hask _
      rw [hask] at hlogged hheld
      rw [hexecute]
      exact ⟨_, hlogged, hheld, hextended hfirst, fun _ h => by cases h⟩
  | ok reply cw =>
      have hexecute : Connection.execute script ps (c, w) = _ := bind_of_ok hask _
      rw [hask] at hall hlogged hheld hsock hopened
      obtain rfl := hall reply rfl
      cases hredirect : reply.redirect with
      | none =>
          rw [hredirect] at hexecute
          rw [hexecute]
          refine ⟨_, hlogged, hheld, hextended hfirst, fun _ _ => ⟨c.sock, hc.base, ?_, ?_⟩⟩
          · exact hopened.symm ▸ hc.opened
          · rw [Function.update_self, List.getLast?_concat]
      | some redirect =>
          rw [hredirect] at hexecute
          obtain ⟨c₁, w₁⟩ := cw
          dsimp only [after] at hlogged hheld hsock hopened
          obtain ⟨more, hpre₂, -, hlogged₂, hheld₂, hsock₂, hopened₂, -⟩ :=
            Utters.selection.logged hlogged hheld
          rw [hsock, Function.update_self, Function.update_idem, List.append_assoc] at hlogged₂
          have hboth : [(script, ps)] ++ more <+: [(script, ps), (Follow.CONTEXT, [])] :=
            (List.prefix_append_right_inj [(script, ps)]).mpr hpre₂
          cases hselection : Follow.selection (c₁, w₁) with
          | error e cw =>
              have hrelayed : Connection.execute script ps (c, w) = .error e cw :=
                hexecute.trans (bind_of_error hselection _)
              rw [hselection] at hlogged₂ hheld₂
              rw [hrelayed]
              exact ⟨_, hlogged₂, hheld₂, hextended hboth, fun _ h => by cases h⟩
          | ok selecting cw =>
              obtain ⟨fields, -, hselects⟩ :=
                Follow.selects_of_selection (congrArg outcome hselection)
              have hsilent : Script.taken take (selecting, []) = none := hdiscerns.selects hselects
              have hstatements : (Follow.statements script ps selecting).filterMap (Script.taken take) =
                  [(script, ps)].filterMap (Script.taken take) := by
                rw [Follow.statements, List.filterMap_cons_none hcontext, List.filterMap_append]
                by_cases hsel : selecting = []
                · rw [if_pos hsel]
                  rfl
                · rw [if_neg hsel, List.filterMap_cons_none hsilent]
                  rfl
              have hsent : ∀ q ∈ Follow.statements script ps selecting,
                  q = (script, ps) ∨ OwnScript q := by
                refine List.forall_mem_cons.mpr ⟨.inr .context,
                  List.forall_mem_append.mpr ⟨?_, List.forall_mem_singleton.mpr (.inl rfl)⟩⟩
                by_cases hsel : selecting = []
                · rw [if_pos hsel]
                  exact List.forall_mem_nil _
                · rw [if_neg hsel]
                  exact List.forall_mem_singleton.mpr (.inr (.selection hselects hsel))
              have hlast : (Follow.statements script ps selecting).getLast? =
                  some (script, ps) := by
                rw [Follow.statements, ← List.cons_append, List.getLast?_concat]
              rw [hselection] at hlogged₂ hheld₂ hopened₂
              dsimp only [after] at hlogged₂ hheld₂ hopened₂
              have hfollow : Connection.execute script ps (c, w) =
                  Follow.followLoop script ps selecting Follow.MOST_HOPS redirect 0 cw :=
                hexecute.trans (bind_of_ok hselection _)
              obtain ⟨log', hrelayed⟩ := followLoop_relayed script hkeyed selecting
                Follow.MOST_HOPS redirect 0 hlogged₂ hheld₂
              rw [hfollow]
              refine ⟨log', hrelayed.logged, hrelayed.held, fun i => ?_, fun reply' hreply' => ?_⟩
              · rcases Nat.lt_or_ge i cw.2.opened with hlt | hge
                · rw [hrelayed.old i hlt]
                  exact hextended hboth i
                · rw [h.fresh i (by omega)]
                  exact ⟨log' i, rfl, once_of_prefix (hrelayed.new i hge) hstatements hsent⟩
              · obtain ⟨i, hge, hlt, hall⟩ := hrelayed.answered reply' hreply'
                exact ⟨i, by have := hc.base; have := hc.opened; omega, hlt, hall ▸ hlast⟩

/-- A call that executes what was rendered. -/
def Rendered.call (r : Rendered Value) : Call := .execute r.script r.parameters

/-- **What a run of statements leaves on every socket**: some of them, in their order, and the
client's own scripts. -/
theorem runs_logged (hdiscerns : Discerns take) {rs : List (Rendered Value)}
    (hkeyed : ∀ r ∈ rs, ∀ p ∈ r.parameters, p.2.Keyed)
    {base : ℕ} {log : ℕ → List Script} {cw : Connection × World} (h : Logged base log cw.2)
    (hc : Held base cw.1 cw.2) :
    ∃ log', Logged base log' (runs (rs.map Rendered.call) cw).2 ∧
      Held base (runs (rs.map Rendered.call) cw).1 (runs (rs.map Rendered.call) cw).2 ∧
      ∀ i, ∃ more, log' i = log i ++ more ∧ (more.filterMap (Script.taken take)).Sublist
        ((rs.map fun r => (r.script, r.parameters)).filterMap (Script.taken take)) ∧
        ∀ q ∈ more, OwnScript q ∨ ∃ r ∈ rs, q = (r.script, r.parameters) := by
  induction rs generalizing log cw with
  | nil =>
      exact ⟨log, h, hc, fun i =>
        ⟨[], (List.append_nil _).symm, List.nil_sublist _, List.forall_mem_nil _⟩⟩
  | cons r rs ih =>
      obtain ⟨c, w⟩ := cw
      obtain ⟨log₁, hlogged, hheld, hmore, -⟩ :=
        executed hdiscerns r.script (hkeyed r List.mem_cons_self) h hc
      have hafter : after (r.call.run (c, w)) =
          after (Connection.execute r.script r.parameters (c, w)) := after_discard _ _
      rw [← hafter] at hlogged hheld
      obtain ⟨log₂, hlogged₂, hheld₂, hmore₂⟩ :=
        ih (fun r hr => hkeyed r (List.mem_cons_of_mem _ hr)) hlogged hheld
      refine ⟨log₂, hlogged₂, hheld₂, fun i => ?_⟩
      obtain ⟨first, hfirst, honce⟩ := hmore i
      obtain ⟨rest, hrest, hsub, hsent⟩ := hmore₂ i
      refine ⟨first ++ rest, by rw [hrest, hfirst, List.append_assoc], ?_,
        List.forall_mem_append.mpr ⟨fun q hq => ?_, fun q hq => ?_⟩⟩
      · rw [List.map_cons, ← List.singleton_append, List.filterMap_append, List.filterMap_append]
        exact honce.heard.append hsub
      · rcases honce.sent q hq with rfl | hown
        · exact .inr ⟨r, List.mem_cons_self, rfl⟩
        · exact .inl hown
      · rcases hsent q hq with hown | ⟨r', hr', rfl⟩
        · exact .inl hown
        · exact .inr ⟨r', List.mem_cons_of_mem _ hr', rfl⟩

/-- A connection that was just dialled has said nothing. -/
theorem logged_of_connect {address : Str} {user password : Option Str} {w₀ w : World}
    {c : Connection} (h : connect address user password w₀ = .ok c w) :
    Logged w₀.opened (fun _ => []) w ∧ Held w₀.opened c w := by
  have hnew : ∃ s, w.sockets = Function.update w₀.sockets w₀.opened s ∧
      w.opened = w₀.opened + 1 ∧ InStep s [] [] ∧ c.sock = w₀.opened := by
    rcases connect_spec address user password w₀ with ⟨e, _, hrun, -⟩ | ⟨e, _, s, hrun, -⟩ |
      ⟨minor, w₁, s, hrun, hsockets, hopened, hs⟩
    · cases hrun.symm.trans h
    · cases hrun.symm.trans h
    · obtain ⟨rfl, rfl⟩ := EStateM.Result.ok.inj (hrun.symm.trans h)
      exact ⟨s, hsockets, hopened, hs, rfl⟩
  obtain ⟨s, hsockets, hopened, hs, hsock⟩ := hnew
  have hnone : Logged w₀.opened (fun _ => []) w₀ := ⟨fun i hge hlt => absurd hlt (by omega),
    fun _ _ => rfl⟩
  refine ⟨hnone.accept hsockets hopened (by rw [hs.sent]; rfl), hsock.ge, by omega, ?_⟩
  rw [hsock, hsockets, Function.update_self, hs.sent]
  exact List.cons_ne_nil _ _

/-- **What the nodes are asked** by a run of statements on a connection that was just dialled, and
by one more that is answered. -/
theorem runs_asked (hdiscerns : Discerns take) {address : Str} {user password : Option Str}
    {w₀ w : World} {c : Connection} (h : connect address user password w₀ = .ok c w)
    {rs : List (Rendered Value)} (hkeyed : ∀ r ∈ rs, ∀ p ∈ r.parameters, p.2.Keyed) :
    (∀ i, w₀.opened ≤ i → i < (runs (rs.map Rendered.call) (c, w)).2.opened →
      ∃ asked, askedOn ((runs (rs.map Rendered.call) (c, w)).2.sockets i) = some asked ∧
        (∀ q ∈ asked, OwnScript q ∨ ∃ r ∈ rs, q = Script.canon (r.script, r.parameters)) ∧
        (asked.filterMap take).Sublist
          ((rs.map fun r => (r.script, r.parameters)).filterMap (Script.taken take))) ∧
    ∀ (script : Str) (ps : List (Str × Value)), (∀ p ∈ ps, p.2.Keyed) → ∀ reply,
      outcome (Connection.execute script ps (runs (rs.map Rendered.call) (c, w))) = .ok reply →
      ∃ i asked, w₀.opened ≤ i ∧
        askedOn ((after (Connection.execute script ps
          (runs (rs.map Rendered.call) (c, w)))).2.sockets i) = some asked ∧
        asked.getLast? = some (Script.canon (script, ps)) := by
  obtain ⟨hlogged, hheld⟩ := logged_of_connect h
  obtain ⟨log, hlogged', hheld', hmore⟩ :=
    @runs_logged _ _ hdiscerns _ hkeyed _ _ (c, w) hlogged hheld
  refine ⟨fun i hge hlt => ?_, fun script ps hps reply hreply => ?_⟩
  · obtain ⟨more, hlog, hsub, hsent⟩ := hmore i
    rw [List.nil_append] at hlog
    have hasked := (hlogged'.carries i hge hlt).askedOn_eq
    rw [hlog] at hasked
    refine ⟨_, hasked, List.forall_mem_map.mpr fun q hq => ?_, ?_⟩
    · rcases hsent q hq with hown | ⟨r, hr, rfl⟩
      · exact .inl (hown.canon.symm ▸ hown)
      · exact .inr ⟨r, hr, rfl⟩
    · rw [List.filterMap_map]
      exact hsub
  · obtain ⟨log', hlogged₂, -, -, hanswered⟩ := executed hdiscerns script hps hlogged' hheld'
    obtain ⟨i, hge, hlt, hlast⟩ := hanswered reply hreply
    refine ⟨i, _, hge, (hlogged₂.carries i hge hlt).askedOn_eq, ?_⟩
    rw [List.getLast?_map, hlast, Option.map_some]

end Runs

/-! ### The client's own scripts -/

theorem Statement.readWhole_context : readWhole Follow.CONTEXT = none := by rfl

/-- A statement ends with a semicolon. -/
theorem Statement.getLast?_text (statement : Statement Reference) :
    statement.text.getLast? = (ofString ";").getLast? := by
  have hlast : ∀ (text : Str) (close : String), ofString close ≠ [] →
      (ofString close).getLast? = (ofString ";").getLast? →
      (text ++ ofString close).getLast? = (ofString ";").getLast? := by
    intro text close hne hclose
    rw [List.getLast?_append_of_ne_nil _ hne, hclose]
  cases statement with
  | select s => exact hlast _ ";" (by decide) rfl
  | create table identity fields => exact hlast _ " \x7d;" (by decide) rfl
  | update table identity fields => exact hlast _ ";" (by decide) rfl
  | delete table identity => exact hlast _ ";" (by decide) rfl
  | claim s count narrowing => exact hlast _ ";" (by decide) rfl

/-- A clause of a selection ends with a space. -/
theorem Follow.Clause.getLast?_ne {fields : List (Str × Value)} {word key : String} {text : Str}
    (h : Clause fields word key text) : text = [] ∨ text.getLast? = (ofString "; ").getLast? := by
  rw [Clause] at h
  split at h
  · next name _ =>
    right
    rw [h.2, ← List.append_assoc, ← List.append_assoc, ← List.append_assoc,
      List.getLast?_append_of_ne_nil _ (by decide)]
  · exact .inl h

/-- A selection ends with a space. -/
theorem Follow.Selects.getLast?_ne {fields : List (Str × Value)} {selecting : Str}
    (h : Selects fields selecting) :
    selecting = [] ∨ selecting.getLast? = (ofString "; ").getLast? := by
  obtain ⟨inNamespace, inDatabase, hnamespace, hdatabase, rfl⟩ := h
  rcases hdatabase.getLast?_ne with rfl | hlast
  · rw [List.append_nil]
    exact hnamespace.getLast?_ne
  · right
    rw [List.getLast?_append_of_ne_nil _ (by rintro rfl; cases hlast), hlast]

/-- No selection is a statement. -/
theorem Follow.Selects.readWhole_eq_none {fields : List (Str × Value)} {selecting : Str}
    (h : Selects fields selecting) : Statement.readWhole selecting = none := by
  by_contra hsome
  obtain ⟨statement, hread⟩ := Option.ne_none_iff_exists'.mp hsome
  have hlast := statement.getLast?_text
  rw [← Statement.readWhole_eq_some_iff.mp hread] at hlast
  rcases h.getLast?_ne with rfl | hend
  · cases hlast
  · rw [hend] at hlast
    exact absurd hlast (by decide)

/-- A script, taken for the statement it is. -/
def statementIn (p : Script) : Option (Statement (Option Value)) :=
  RequestMessage.heard ⟨p.1, none, p.2⟩

theorem discerns_statementIn : Discerns statementIn := by
  have hnone : ∀ {script : Str}, Statement.readWhole script = none →
      statementIn (script, []) = none := by
    intro script h
    rw [statementIn, RequestMessage.heard, h]
    rfl
  exact ⟨hnone Statement.readWhole_context, fun h => hnone h.readWhole_eq_none⟩

/-! ### Built statements -/

section

variable {U V W : Type} (g : V → W) (f : U → V)

theorem Filter.map_map (filter : Filter U) : (filter.map f).map g = filter.map (g ∘ f) := by
  induction filter with
  | comparison _ _ _ => rfl
  | junction _ _ _ ihl ihr => rw [map, map, map, ihl, ihr]

theorem Statement.map_map (statement : Statement U) :
    (statement.map f).map g = statement.map (g ∘ f) := by
  have hnarrowing : ∀ narrowing : Option (Filter U),
      (narrowing.map (Filter.map f)).map (Filter.map g) = narrowing.map (Filter.map (g ∘ f)) := by
    rintro (- | filter)
    · rfl
    · exact congrArg some (filter.map_map g f)
  have hfields : ∀ fields : Assigned U, (fields.map f).map g = fields.map (g ∘ f) := fun fields =>
    Prod.ext rfl (List.map_map ..)
  cases statement with
  | select s => simp only [map, Select.map, hnarrowing]
  | create table identity fields => simp only [map, hfields, Option.map_map]
  | update table identity fields => simp only [map, hfields, Function.comp_apply]
  | delete table identity => rfl
  | claim s count narrowing => simp only [map, hnarrowing]

end

/-- A node hears a statement as it was built, with the values as they are written. -/
theorem Statement.heard_rendered (statement : Statement Value) :
    Script.taken statementIn (statement.rendered.script, statement.rendered.parameters) =
      some (statement.map (some ∘ Value.canon)) := by
  obtain ⟨hread, hlook⟩ := statement.readWhole_rendered
  have hcanon := congrArg (Statement.map (Option.map Value.canon)) hlook
  rw [map_map, map_map] at hcanon
  rw [Script.taken, statementIn, RequestMessage.heard, hread, Option.map_some]
  simp only [Dict.get?_mapValues]
  exact congrArg some hcanon

/-- The statement that a built statement is heard as. -/
theorem Built.taken_rendered {b : Built Value} {r : Rendered Value} (hb : b.rendered = .ok r) :
    ∃ statement, b.statement = .ok statement ∧
      Script.taken statementIn (r.script, r.parameters) =
        some (statement.map (some ∘ Value.canon)) := by
  rw [b.rendered_eq] at hb
  obtain ⟨statement, hstatement, rfl⟩ := Sequences.map_eq_ok.mp hb
  exact ⟨statement, hstatement, statement.heard_rendered⟩

/-- What a list of built statements is heard as. -/
theorem taken_built {bs : List (Built Value)} {rs : List (Rendered Value)}
    (hrs : List.Forall₂ (fun b r => b.rendered = .ok r) bs rs) :
    ∃ statements, List.Forall₂ (fun b statement => b.statement = .ok statement) bs statements ∧
      (rs.map fun r => (r.script, r.parameters)).filterMap (Script.taken statementIn) =
        statements.map (Statement.map (some ∘ Value.canon)) ∧
      ∀ r ∈ rs, ∃ statement ∈ statements,
        Script.taken statementIn (r.script, r.parameters) =
          some (statement.map (some ∘ Value.canon)) := by
  induction hrs with
  | nil => exact ⟨[], .nil, rfl, List.forall_mem_nil _⟩
  | cons hb _ ih =>
      obtain ⟨statements, hstatements, hheard, hall⟩ := ih
      obtain ⟨statement, hstatement, hscript⟩ := Built.taken_rendered hb
      refine ⟨statement :: statements, .cons hstatement hstatements, ?_,
        List.forall_mem_cons.mpr ⟨⟨statement, List.mem_cons_self, hscript⟩, fun r hr => ?_⟩⟩
      · rw [List.map_cons, List.filterMap_cons_some hscript, hheard, List.map_cons]
      · obtain ⟨other, hother, htaken⟩ := hall r hr
        exact ⟨other, List.mem_cons_of_mem _ hother, htaken⟩

/-- **The nodes hear what was built**, and nothing else but the client's own scripts. Whatever
nodes there are, wherever they redirect and whatever fails: every frame behind the greeting of a
socket is a request; each of them is a statement that was built, as the tree it was built as with
every value where it was put, or the question for a context, or the selection of a tenancy; and the
statements come in their order, none of them twice. A statement that is answered is the last that
some node has been asked. -/
theorem nodes_hear_what_was_built {address : Str} {user password : Option Str} {w₀ w : World}
    {c : Connection} (h : connect address user password w₀ = .ok c w) {bs : List (Built Value)}
    {rs : List (Rendered Value)} (hrs : List.Forall₂ (fun b r => b.rendered = .ok r) bs rs)
    (hkeyed : ∀ r ∈ rs, ∀ p ∈ r.parameters, p.2.Keyed) :
    ∃ statements, List.Forall₂ (fun b statement => b.statement = .ok statement) bs statements ∧
      (∀ i, w₀.opened ≤ i → i < (runs (rs.map Rendered.call) (c, w)).2.opened →
        ∃ asked, askedOn ((runs (rs.map Rendered.call) (c, w)).2.sockets i) = some asked ∧
          (∀ p ∈ asked, OwnScript p ∨ ∃ statement ∈ statements,
            statementIn p = some (statement.map (some ∘ Value.canon))) ∧
          (asked.filterMap statementIn).Sublist
            (statements.map (Statement.map (some ∘ Value.canon)))) ∧
      ∀ (b : Built Value) (r : Rendered Value), b.rendered = .ok r →
        (∀ p ∈ r.parameters, p.2.Keyed) → ∀ reply,
          outcome (Connection.execute r.script r.parameters
            (runs (rs.map Rendered.call) (c, w))) = .ok reply →
          ∃ statement i asked p, b.statement = .ok statement ∧ w₀.opened ≤ i ∧
            askedOn ((after (Connection.execute r.script r.parameters
              (runs (rs.map Rendered.call) (c, w)))).2.sockets i) = some asked ∧
            asked.getLast? = some p ∧
            statementIn p = some (statement.map (some ∘ Value.canon)) := by
  obtain ⟨statements, hstatements, hheard, hall⟩ := taken_built hrs
  obtain ⟨hrun, hanswered⟩ := runs_asked discerns_statementIn h hkeyed
  refine ⟨statements, hstatements, fun i hge hlt => ?_, fun b r hb hr reply hreply => ?_⟩
  · obtain ⟨asked, hasked, hsent, hsub⟩ := hrun i hge hlt
    refine ⟨asked, hasked, fun q hq => (hsent q hq).imp_right ?_, hheard ▸ hsub⟩
    rintro ⟨r, hr, rfl⟩
    exact hall r hr
  · obtain ⟨i, asked, hge, hasked, hlast⟩ := hanswered r.script r.parameters hr reply hreply
    obtain ⟨statement, hstatement, hscript⟩ := Built.taken_rendered hb
    exact ⟨statement, i, asked, _, hstatement, hge, hasked, hlast, hscript⟩

/-- A `DELETE` sent to a node that answers one statement. -/
theorem nodes_hear_a_deletion :
    ∃ statement asked, (Built.delete (ofString "t") (Value.integer 7)).statement = .ok statement ∧
      askedOn ((runs [.execute (ofString "DELETE t:$p0;") [(numberName 0, .integer 7)]]
        (⟨0, none, none, false, false, 4⟩,
          after (connect (ofString "a:1") none none answering))).2.sockets 0) = some asked ∧
      (asked.filterMap statementIn).Sublist [statement.map (some ∘ Value.canon)] := by
  have hconnect : connect (ofString "a:1") none none answering =
      .ok ⟨0, none, none, false, false, 4⟩
        (after (connect (ofString "a:1") none none answering)) := rfl
  have hrendered : (Built.delete (ofString "t") (Value.integer 7)).rendered =
      .ok ⟨ofString "DELETE t:$p0;", [(numberName 0, .integer 7)]⟩ := rfl
  have hkeyed : ∀ r ∈ [(⟨ofString "DELETE t:$p0;", [(numberName 0, .integer 7)]⟩ :
      Rendered Value)], ∀ p ∈ r.parameters, p.2.Keyed :=
    List.forall_mem_singleton.mpr (List.forall_mem_singleton.mpr trivial)
  obtain ⟨statements, hstatements, hheard, -⟩ := nodes_hear_what_was_built hconnect
    (.cons hrendered .nil) hkeyed
  obtain ⟨statement, rest, hstatement, hrest, rfl⟩ := List.forall₂_cons_left_iff.mp hstatements
  obtain rfl := List.forall₂_nil_left_iff.mp hrest
  simp only [List.map_singleton, Rendered.call] at hheard
  obtain ⟨asked, hasked, -, hsub⟩ := hheard 0 (Nat.zero_le _) (by decide +kernel)
  exact ⟨statement, asked, hstatement, hasked, hsub⟩

end TessariDB
