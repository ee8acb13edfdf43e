import TessariDB.CacheHeard
import TessariDB.Served

/-!
# Caches over One Store

Callers on connections of their own call the methods of caches, each of them deciding by the answers
so far what to call next. Their nodes answer what they hear out of one store.

A method on the store itself (`CacheAsk.Does`) has no connection, no script and no bytes: it is
refused, or it raises and leaves the store alone, or the store does the call that was planned and
the method makes something of the outcomes.

## Main results

* `overCaches_eq`: a program that calls methods is a program over the connection.
* `caches_share_a_store`: callers over connections are callers interleaved on the store.
-/

namespace TessariDB

open ByteCodec ByteStream Utf8 Interleaving

/-- A call of a method of a cache, with values that can be written. -/
structure CacheAsk where
  cache : CacheStatements
  method : CacheMethod
  keyed : ∀ v ∈ method.values, v.Keyed

/-- What a call of a method comes to. -/
abbrev CacheAsk.Answer (_ : CacheAsk) : Type := Except CacheRaised CacheAnswer

/-- A caller of methods of caches. -/
abbrev CacheCaller (R : Type) := Program CacheAsk CacheAsk.Answer R

section

variable (roundNanos : Double → Except Rejected ℤ) (float : ℤ → Except Rejected Double) {R : Type}

/-- A caller on a connection. -/
def overCaches : CacheCaller R → Connection × World → R × (Connection × World)
  | .result r, cw => (r, cw)
  | .ask q next, cw =>
      let x := q.method.perform roundNanos float q.cache cw
      overCaches (next (outcome x)) (after x)

namespace CacheAsk

/-- What a method does to a store. -/
inductive Does {σ : Type} (step : CacheStatements × CacheCall → σ → List Outcome × σ)
    (q : CacheAsk) (store : σ) : q.Answer → σ → Prop
  | refused {why : Rejected} (refuses : q.method.planned roundNanos float = .error why) :
      Does step q store (.error (.rejected why)) store
  | unheard {p : CacheMethod.Plan} (plans : q.method.planned roundNanos float = .ok p)
      (e : Raised) : Does step q store (.error (.raised e)) store
  | answered {p : CacheMethod.Plan} (plans : q.method.planned roundNanos float = .ok p) :
      Does step q store (p.2 (step (q.cache, p.1.canon) store).1)
        (step (q.cache, p.1.canon) store).2

/-- What a method makes of what its statement came to. -/
def made (p : CacheMethod.Plan) : Except Raised (List Outcome) → Except CacheRaised CacheAnswer
  | .error e => .error (.raised e)
  | .ok outcomes => p.2 outcomes

def plan : Plans cacheCallIn CacheAsk.Answer := fun q =>
  match h : q.method.planned roundNanos float with
  | .error why => .error (.error (.rejected why))
  | .ok p => .ok (⟨p.1.render q.cache, CacheCall.keyed_render q.cache
      ((CacheMethod.planned_plain h).2 ▸ q.keyed), (q.cache, p.1.canon), taken_planned h⟩, made p)

variable {roundNanos float}

theorem plan_of_refused {q : CacheAsk} {why : Rejected}
    (h : q.method.planned roundNanos float = .error why) :
    plan roundNanos float q = .error (.error (.rejected why)) := by
  rw [plan]
  split
  · next why' hwhy =>
    obtain rfl := Except.error.inj (h.symm.trans hwhy)
    rfl
  · next p hp => cases h.symm.trans hp

theorem plan_of_planned {q : CacheAsk} {p : CacheMethod.Plan}
    (h : q.method.planned roundNanos float = .ok p) :
    ∃ question, plan roundNanos float q = .ok (question, made p) ∧
      question.rendered = p.1.render q.cache ∧ question.heard = (q.cache, p.1.canon) := by
  rw [plan]
  split
  · next why hwhy => cases h.symm.trans hwhy
  · next p' hp' =>
    obtain rfl := Except.ok.inj (h.symm.trans hp')
    exact ⟨_, rfl, rfl, rfl⟩

end CacheAsk

variable {roundNanos float}

/-- **A caller of methods is a program over its connection.** -/
theorem overCaches_eq (program : CacheCaller R) (cw : Connection × World) :
    overCaches roundNanos float program cw =
      overConnection (CacheAsk.plan roundNanos float) program cw := by
  induction program generalizing cw with
  | result r => rfl
  | ask q next ih =>
      rw [overCaches, overConnection]
      cases h : q.method.planned roundNanos float with
      | error why =>
          rw [CacheAsk.plan_of_refused h, perform_of_refused h]
          exact ih _ _
      | ok p =>
          obtain ⟨question, hplan, hrendered, -⟩ := CacheAsk.plan_of_planned h
          rw [hplan, perform_of_planned h, carried_run]
          dsimp only
          rw [hrendered, ← ih]
          cases Connection.execute (p.1.render q.cache).script (p.1.render q.cache).parameters
              cw with
          | error e cw => rfl
          | ok reply cw =>
              dsimp only
              rw [outcome_settle, after_settle]
              rfl

/-- What a method does to a store is what its plan says. -/
theorem CacheAsk.does_of_answers {σ ι : Type}
    {step : CacheStatements × CacheCall → σ → List Outcome × σ} {i : ι} {store store' : σ}
    {q : CacheAsk} {a : q.Answer} (h : Answers (Silent (CacheAsk.plan roundNanos float))
      (Loud (CacheAsk.plan roundNanos float)) (Serves step) i store q a store') :
    q.Does roundNanos float step store a store' := by
  cases hplanned : q.method.planned roundNanos float with
  | error why =>
      have hplan := CacheAsk.plan_of_refused hplanned
      rcases h with ⟨hrefused | ⟨question, make, e, hasked, -⟩, rfl⟩ |
        ⟨event, ⟨question, make, hasked, -⟩, -⟩
      · obtain rfl := Except.error.inj (hplan.symm.trans hrefused)
        exact .refused hplanned
      · cases hplan.symm.trans hasked
      · cases hplan.symm.trans hasked
  | ok p =>
      obtain ⟨question, hplan, -, hheard⟩ := CacheAsk.plan_of_planned hplanned
      rcases h with ⟨hrefused | ⟨question', make, e, hasked, rfl⟩, rfl⟩ |
        ⟨event, ⟨question', make, hasked, hevent, rfl⟩, hserves⟩
      · cases hplan.symm.trans hrefused
      · obtain ⟨rfl, rfl⟩ := Prod.mk.inj (Except.ok.inj (hplan.symm.trans hasked))
        exact .unheard hplanned e
      · obtain ⟨rfl, rfl⟩ := Prod.mk.inj (Except.ok.inj (hplan.symm.trans hasked))
        rw [Serves, ← hevent, hheard] at hserves
        have hanswered : q.Does roundNanos float step store
            (p.2 (step (q.cache, p.1.canon) store).1) (step (q.cache, p.1.canon) store).2 :=
          .answered hplanned
        rwa [hserves] at hanswered

/-- What is heard where a caller asks once, on the socket it was dialled over. -/
theorem heard_once {address : Str} {user password : Option Str} {w₀ w : World} {c : Connection}
    (h : Connection.connect address user password w₀ = .ok c w) (q : CacheAsk)
    {p : CacheMethod.Plan} (hp : q.method.planned roundNanos float = .ok p)
    (hopened : (after (Connection.execute (p.1.render q.cache).script
      (p.1.render q.cache).parameters (c, w))).2.opened = w₀.opened + 1)
    {reply : Reply} (hreply : outcome (Connection.execute (p.1.render q.cache).script
      (p.1.render q.cache).parameters (c, w)) = .ok reply) :
    listenOn cacheCallIn ((overCaches roundNanos float (Program.once q) (c, w)).2.2.sockets
      w₀.opened) = some [(q.cache, p.1.canon)] := by
  have hafter : (overCaches roundNanos float (Program.once q) (c, w)).2 =
      after (Connection.execute (p.1.render q.cache).script (p.1.render q.cache).parameters
        (c, w)) := by
    rw [Program.once, overCaches, overCaches]
    exact (after_perform hp _).trans (after_discard _ _)
  obtain ⟨hlogged, hheld⟩ := logged_of_connect h
  obtain ⟨log, hlogged', -, hmore, hanswered⟩ := executed discerns_cacheCallIn _
    (CacheCall.keyed_render q.cache ((CacheMethod.planned_plain hp).2 ▸ q.keyed)) hlogged hheld
  obtain ⟨i, hge, hlt, hlast⟩ := hanswered reply hreply
  obtain rfl : i = w₀.opened := by omega
  obtain ⟨more, hlog, honce⟩ := hmore w₀.opened
  rw [List.nil_append] at hlog
  obtain ⟨before, hbefore⟩ := List.getLast?_eq_some_iff.mp (hlog ▸ hlast)
  have hheard := List.filterMap_cons_some (f := Script.taken cacheCallIn) (l := [])
    (taken_planned (s := q.cache) hp)
  have hlisted := honce.heard
  rw [hheard, hbefore, List.filterMap_append, hheard, List.filterMap_nil] at hlisted
  have hone := List.Sublist.eq_of_length_le hlisted (by simp)
  rw [hafter, (hlogged'.carries _ hge hlt).listenOn_eq cacheCallIn, hlog, hbefore,
    List.filterMap_append, hheard]
  exact congrArg some hone

/-- **Caches share a store.** Any number of callers call the methods of caches, each over a
connection of its own, and each decides by the answers and errors so far what to call next. Where
the nodes answer what they hear and nothing else, out of a store that went through it in one order,
the callers come to what they come to when they are interleaved on the store itself. Each call is
refused, or raises an error and was not heard, or is the store's own answer to that very call. -/
theorem caches_share_a_store {ι σ : Type} [Finite ι] [DecidableEq ι]
    {step : CacheStatements × CacheCall → σ → List Outcome × σ} {address : ι → Str}
    {user password : ι → Option Str} {w₀ w : ι → World} {c : ι → Connection}
    (hconnect : ∀ i,
      Connection.connect (address i) (user i) (password i) (w₀ i) = .ok (c i) (w i))
    {callers : ι → CacheCaller R} {history : ι → List (Hearing (CacheStatements × CacheCall))}
    (hanswering : ∀ i, Answering (history i) ((w i).sockets (c i).sock).flat)
    (hheard : ∀ i, listenOn cacheCallIn
      ((overCaches roundNanos float (callers i) (c i, w i)).2.2.sockets (c i).sock) =
        some ((history i).map Prod.fst))
    {store store' : σ} (hordered : Ordered (Serves step) store history store') :
    Reached (fun (_ : ι) store q a store' => q.Does roundNanos float step store a store')
      Undisturbed ⟨store, callers⟩
      ⟨store', fun i => .result (overCaches roundNanos float (callers i) (c i, w i)).1⟩ := by
  simp only [overCaches_eq] at hheard ⊢
  exact (sockets_share_a_store discerns_cacheCallIn hconnect hanswering hheard hordered).mono
    CacheAsk.does_of_answers

end

/-! ### Two callers of one method each -/

namespace Counted

def name : Name := ⟨ofString "n", by decide⟩

/-- A `get` of the key `a`. -/
def ask : CacheAsk := ⟨⟨name, name, name⟩, .get (ofString "a"), List.forall_mem_nil _⟩

/-- What the `get` plans. -/
def planned : CacheMethod.Plan :=
  CacheMethod.plan (.get (ofString "a")) (fun found => .ok (CacheHandle.presentOf found)) .found

/-- The connection of a caller. -/
def connection : Connection := ⟨0, none, none, false, false, 4⟩

/-- The world that the connection was opened in. -/
def world : World := after (Connection.connect (ofString "a:1") none none answering)

/-- A store that counts the calls and finds nothing. -/
def step (_ : CacheStatements × CacheCall) (n : ℕ) : List Outcome × ℕ :=
  ([.valueOutcome [] .nullValue], n + 1)

theorem connect_connection :
    Connection.connect (ofString "a:1") none none answering = .ok connection world := rfl

theorem ask_planned : ask.method.planned (fun _ => .ok 0) (fun _ => .ok 0) = .ok planned := rfl

set_option maxRecDepth 4000 in
theorem readAnswer_value :
    readAnswer (Follow.valueAnswer [0x02]) = .ok [.valueOutcome [] .nullValue] := rfl

/-- The node has one answer for whatever it hears. -/
theorem answering_world {α : Type} (heard : α) :
    Answering [(heard, [.valueOutcome [] .nullValue])]
      (world.sockets connection.sock).flat := by
  have hflat : (world.sockets connection.sock).flat =
      Frames.frame Frames.ANSWER (Follow.valueAnswer [0x02]) ++ [] := by decide +kernel
  rw [hflat]
  exact .cons readAnswer_value (by decide) .nil

theorem ask_replied : ∃ reply, outcome (Connection.execute (planned.1.render ask.cache).script
    (planned.1.render ask.cache).parameters (connection, world)) = .ok reply := by
  have hok : (outcome (Connection.execute (planned.1.render ask.cache).script
      (planned.1.render ask.cache).parameters (connection, world))).isOk = true := by
    decide +kernel
  cases hrun : outcome (Connection.execute (planned.1.render ask.cache).script
      (planned.1.render ask.cache).parameters (connection, world)) with
  | error e =>
      rw [hrun] at hok
      cases hok
  | ok reply => exact ⟨reply, rfl⟩

theorem ask_heard : listenOn cacheCallIn
    ((overCaches (fun _ => .ok 0) (fun _ => .ok 0) (Program.once ask)
      (connection, world)).2.2.sockets connection.sock) =
      some [(ask.cache, .get (ofString "a"))] := by
  obtain ⟨reply, hreply⟩ := ask_replied
  have hfresh : answering.opened = 0 := rfl
  have hopened : (after (Connection.execute (planned.1.render ask.cache).script
      (planned.1.render ask.cache).parameters (connection, world))).2.opened =
      answering.opened + 1 := by
    rw [hfresh]
    decide +kernel
  have hsock : connection.sock = answering.opened := rfl
  have hcall : planned.1.canon = .get (ofString "a") := rfl
  rw [hsock, heard_once connect_connection ask ask_planned hopened hreply, hcall]

end Counted

/-- Two callers that ask for a key of a store that counts what it is asked. -/
theorem caches_share_a_store_counted :
    ∃ results : Bool → Counted.ask.Answer,
      Reached (fun (_ : Bool) n q a n' =>
          q.Does (fun _ => .ok 0) (fun _ => .ok 0) Counted.step n a n')
        Undisturbed ⟨0, fun _ => Program.once Counted.ask⟩
        ⟨2, fun i => .result (results i)⟩ := by
  let history : Bool → List (Hearing (CacheStatements × CacheCall)) := fun _ =>
    [((Counted.ask.cache, .get (ofString "a")), [.valueOutcome [] .nullValue])]
  have hheard : ∀ i : Bool, listenOn cacheCallIn
      ((overCaches (fun _ => .ok 0) (fun _ => .ok 0) (Program.once Counted.ask)
        (Counted.connection, Counted.world)).2.2.sockets Counted.connection.sock) =
        some ((history i).map Prod.fst) := fun _ => Counted.ask_heard
  have hordered : Ordered (Serves Counted.step) 0 history 2 :=
    .next true rfl rfl (.next false rfl rfl (.done _ fun i => by cases i <;> rfl))
  exact ⟨_, caches_share_a_store (fun _ => Counted.connect_connection)
    (fun _ => Counted.answering_world _) hheard hordered⟩

end TessariDB
