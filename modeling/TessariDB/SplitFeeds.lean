import TessariDB.Bodies
import TessariDB.FailedFeeds
import TessariDB.SplitLog

/-!
# Feeds over a Split Table

A table that is split keeps a log for each of its parts, so no one sequence says where a feed was.
Each change it sends carries a cursor instead, and a feed with a condition sends its cursor with
every progress. The client stores the cursor of what it was handed last and sends it back when it
subscribes again; what the cursor says is the node's own affair.

The node of `SplitTable` serves a feed of `SplitLog`: it interleaves the parts as it likes, skips
what the condition leaves out, and is cut off at any byte, in the middle of a frame or of a run of
skipped changes. The caller may leave the iterator after any step. `Resubscribed` is a series of
such connections, each subscribed where the one before left the `Subscription`.

## Main results

* `Subscription.handed_of_cut`: what a stream that was cut off hands over.
* `Resubscribed.one_feed`: a resumed feed is one feed that was never cut off.
* `resumed_split_feed_loses_nothing`: of every part it hands over each change once and in order.
-/

namespace TessariDB

open ByteCodec ByteStream Utf8

/-! ### Frames on a stream that is cut off -/

namespace Frames

/-- A whole frame at the front of a stream that begins as another one does is the same frame. -/
theorem eq_of_frame_prefix {f g : ℕ × Bytes} {s t : Bytes} (hf : f.1 ∈ FROM_NODE)
    (hfle : f.2.length ≤ CEILING) (hg : g.1 ∈ FROM_NODE) (hgle : g.2.length ≤ CEILING)
    (h : frame f.1 f.2 ++ s <+: frame g.1 g.2 ++ t) : f = g ∧ s <+: t := by
  obtain ⟨u, h⟩ := h
  rw [List.append_assoc] at h
  have hread := frameOf_frame hf hfle (s ++ u) .eof
  rw [h, frameOf_frame hg hgle] at hread
  obtain ⟨⟨hkind, hbody⟩, -⟩ : (g.1 = f.1 ∧ g.2 = f.2) ∧ _ := by
    simpa only [Prod.mk.injEq, Except.ok.injEq, Option.some.injEq] using hread
  obtain rfl : f = g := Prod.ext hkind.symm hbody.symm
  exact ⟨rfl, u, List.append_cancel_left h⟩

/-- A frame says its body. -/
theorem frame_inj {kind : ℕ} {body body' : Bytes} (h : frame kind body = frame kind body') :
    body = body' := by
  have hdrop : ∀ b : Bytes, (frame kind b).drop 5 = b := fun b => by
    rw [frame, List.drop_succ_cons, List.drop_left' (BigEndian.length_toBytes ..)]
  rw [← hdrop body, h, hdrop]

end Frames

/-- A whole frame, and what it hands over. -/
def Bears (f : ℕ × Bytes) (event : Event) : Prop :=
  f.2.length ≤ Frames.CEILING ∧ Event.ofFrame f.1 f.2 = some (.ok event)

namespace Subscription

/-- What `n` steps of an iterator hand over. -/
def handed : ℕ → Subscription × World → List Event
  | 0, _ => []
  | n + 1, state =>
      (match next state with
        | .ok (some event) _ => [event]
        | _ => []) ++ handed n (after (next state))

/-- The subscription once some events are handled. -/
def moved (sub : Subscription) (events : List Event) : Subscription :=
  events.foldl (fun sub event => sub.handled event.sequence event.cursor) sub

theorem handed_of_silent {state : Subscription × World} {r : Except Raised (Option Event)}
    {state' : Subscription × World} (h : next state = settle r state')
    (hsilent : ∀ event, r ≠ .ok (some event)) (n : ℕ) :
    handed (n + 1) state = handed n state' ∧ stepped (n + 1) state = stepped n state' := by
  have hafter : after (next state) = state' := by rw [h, after_settle]
  refine ⟨?_, by rw [stepped_succ, hafter]⟩
  rw [handed, hafter, h]
  rcases r with e | (- | event)
  · rfl
  · rfl
  · exact absurd rfl (hsilent event)

theorem handed_of_event {state : Subscription × World} {event : Event}
    {state' : Subscription × World} (h : next state = .ok (some event) state') (n : ℕ) :
    handed (n + 1) state = event :: handed n state' ∧
      stepped (n + 1) state = stepped n state' := by
  refine ⟨?_, by rw [stepped_succ, h]; rfl⟩
  rw [handed, h]
  rfl

/-- **A stream that was cut off.** Whatever byte the stream of some frames breaks off at, and
however many steps are taken, what is handed over is a first part of what the frames bear, and the
position is the one after it. -/
theorem handed_of_cut {frames : List (ℕ × Bytes)} {events : List Event}
    (hbears : List.Forall₂ Bears frames events) {sub : Subscription} {w : World}
    (hflat : Closed (sub, w) ∨ (sub.socket w).flat <+: Frames.wire frames) (n : ℕ) :
    handed n (sub, w) <+: events ∧
      (stepped n (sub, w)).1.position = (sub.moved (handed n (sub, w))).position := by
  induction n generalizing frames events sub w with
  | zero => exact ⟨List.nil_prefix, rfl⟩
  | succ n ih =>
      rcases hclosed : (sub.socket w).closed with - | -
      · have hprefix : (sub.socket w).flat <+: Frames.wire frames :=
          hflat.resolve_left (by simp [Closed, hclosed])
        rcases next_of_open hclosed with ⟨r, w', hnext, hsilent, hclosed'⟩ |
          ⟨f, s', hadv, hread⟩
        · obtain ⟨hhanded, hstepped⟩ := handed_of_silent hnext hsilent n
          rw [hhanded, hstepped]
          exact ih hbears (.inl hclosed')
        -- A whole frame is there, so it is the first of the frames.
        have hf : f.2.length ≤ Frames.CEILING ∧ ∃ r, Event.ofFrame f.1 f.2 = some r := by
          rcases hread with ⟨-, ⟨hle, event, hf⟩, -⟩ | ⟨-, ⟨hle, e, hf⟩, -⟩
          · exact ⟨hle, _, hf⟩
          · exact ⟨hle, _, hf⟩
        obtain ⟨hle, r, hr⟩ := hf
        rw [hadv.flat] at hprefix
        cases hbears with
        | nil =>
            have hlength := hprefix.length_le
            simp [Frames.wire, Frames.frame] at hlength
        | @cons g event frames events hbears hrest =>
            obtain ⟨hgle, hg⟩ := hbears
            obtain ⟨rfl, htail⟩ := Frames.eq_of_frame_prefix (kind_of_ofFrame hr) hle
              (kind_of_ofFrame hg) hgle hprefix
            obtain ⟨s'', hopen'', hflat'', hnext⟩ := next_of_whole hclosed hle hg hadv.flat
            have hrun := handle_eq f.1 f.2 sub (w.put sub.conn.sock s'')
            rw [hg] at hrun
            obtain ⟨hhanded, hstepped⟩ := handed_of_event (hnext.trans (bind_of_ok hrun _)) n
            have htail' : ((sub.handled event.sequence event.cursor).socket
                (w.put sub.conn.sock s'')).flat <+: Frames.wire frames := by
              rwa [socket_handled, hflat'']
            obtain ⟨hpre, hposition⟩ := ih hrest (.inr htail')
            rw [hhanded, hstepped]
            exact ⟨List.cons_prefix_cons.mpr ⟨rfl, hpre⟩, hposition⟩
      · obtain ⟨e, w', hnext, hclosed'⟩ := next_of_closed hclosed
        obtain ⟨hhanded, hstepped⟩ :=
          @handed_of_silent (sub, w) (.error e) (sub, w') hnext (fun _ h => by cases h) n
        rw [hhanded, hstepped]
        exact ih hbears (.inl hclosed')

end Subscription

/-! ### Split tables -/

/-- A split table, as the node that serves it has it: a log for each part, and a cursor for each
place. -/
structure SplitTable (ι α : Type) where
  parts : ι → List α
  /-- The change a feed with this condition sends of an entry, if any. -/
  seen : Option (Str × Value) → α → Option Change
  spell : SplitLog.Place ι → Str
  injective : Function.Injective spell
  /-- No cursor is empty, so an empty one in a Subscribe body is none. -/
  nonempty : ∀ p, spell p ≠ []
  /-- Where a position begins in each part. -/
  begins : ℕ → SplitLog.Place ι

namespace SplitTable

variable {ι α : Type} (t : SplitTable ι α)

/-- What is sent of an item carries the item's place. -/
inductive Spells : SplitLog.Item ι Change → Event → Prop
  | entry (part : ι) (c : Change) (place : SplitLog.Place ι) :
      Spells (.entry part c place) (.change { c with cursor := some (t.spell place) })
  | reached (place : SplitLog.Place ι) (sequence : ℕ) :
      Spells (.reached place) (.progress ⟨sequence, some (t.spell place)⟩)

/-- Where the node starts for a Subscribe body. -/
def Finds (m : SubscribeMessage) (p : SplitLog.Place ι) : Prop :=
  match m.cursor with
  | some (c :: cursor) => t.spell p = c :: cursor
  | _ => p = t.begins m.from_

/-- What the position of a subscription names. -/
def Names (position : ℤ × Option Str) (p : SplitLog.Place ι) : Prop :=
  position.2 = some (t.spell p) ∨ position.2 = none ∧ p = t.begins position.1.toNat

/-- A node that read the Subscribe frame on a socket sends a feed from the place it asked for, and
is cut off at any byte. -/
inductive Answers [DecidableEq ι] : Socket → Prop
  | cut {s : Socket} {body : Bytes} {m : SubscribeMessage} {p q : SplitLog.Place ι}
      {items : List (SplitLog.Item ι Change)} {frames : List (ℕ × Bytes)} {events : List Event}
      (hopen : s.closed = false)
      (hsent : s.sent.getLast? = some (Frames.frame Frames.SUBSCRIBE body))
      (hread : readSubscribe body = .ok (m, [])) (hfinds : t.Finds m p)
      (hfeed : SplitLog.Feed t.parts (t.seen m.condition) p items q)
      (hspells : List.Forall₂ t.Spells items events) (hbears : List.Forall₂ Bears frames events)
      (hflat : s.flat <+: Frames.wire frames) : Answers s

variable {t}

theorem Spells.cursor_eq {item : SplitLog.Item ι Change} {event : Event}
    (h : t.Spells item event) : event.cursor = some (t.spell item.place) := by
  cases h <;> rfl

/-- The position after what was handed over names the place of the last of it. -/
theorem names_moved {sub : Subscription} {p : SplitLog.Place ι} (hp : t.Names sub.position p)
    {items : List (SplitLog.Item ι Change)} {events : List Event}
    (hspells : List.Forall₂ t.Spells items events) :
    t.Names (sub.moved events).position (SplitLog.lastPlace p items) := by
  induction hspells generalizing sub p with
  | nil => exact hp
  | @cons item event items events hspell _ ih =>
      rw [SplitLog.lastPlace_cons]
      have hcursor : (sub.handled event.sequence event.cursor).resumeCursor =
          some (t.spell item.place) := by
        change (event.cursor <|> sub.resumeCursor) = _
        rw [hspell.cursor_eq]
        rfl
      exact ih (.inl hcursor)

end SplitTable

/-! ### Subscribing again -/

/-- A series of connections to nodes that serve a split table, from one position to another, and
what they handed over in all. Each of them is subscribed at the position where the one before was
left, after any number of steps. -/
inductive Resubscribed {ι α : Type} [DecidableEq ι] (t : SplitTable ι α) (table : Str)
    (condition : Option Str) (parameters : Option (List (Str × Value))) :
    ℤ × Option Str → List Event → ℤ × Option Str → Prop
  | ended (position : ℤ × Option Str) :
      Resubscribed t table condition parameters position [] position
  | again {start stop : ℤ × Option Str} {c c' : Connection} {w w' : World} {sub : Subscription}
      {n : ℕ} {rest : List Event}
      (hsubscribe : Connection.subscribe start.1 (some table) start.2 condition parameters (c, w) =
        .ok sub (c', w'))
      (hnode : t.Answers (sub.socket w'))
      (hrest : Resubscribed t table condition parameters
        (Subscription.stepped n (sub, w')).1.position rest stop) :
      Resubscribed t table condition parameters start (Subscription.handed n (sub, w') ++ rest) stop

/-- The condition as a node hears it, with the object of its parameters. -/
def heardCondition (condition : Option Str) (parameters : Option (List (Str × Value))) :
    Option (Str × Value) :=
  condition.map fun c => (c, (Value.object (parameters.getD [])).canon)

section Resubscribed

variable {ι α : Type} {t : SplitTable ι α} {table : Str} {condition : Option Str}
  {parameters : Option (List (Str × Value))}

/-- **The node finds the place the position names.** -/
theorem SplitTable.finds_of_names (hkeyed : (Value.object (parameters.getD [])).Keyed)
    {position : ℤ × Option Str} {p p' : SplitLog.Place ι} {body : Bytes} {m : SubscribeMessage}
    (hp : t.Names position p)
    (hbody : subscribeBody position.1 (some table) position.2 condition parameters = .ok body)
    (hread : readSubscribe body = .ok (m, [])) (hfinds : t.Finds m p') :
    p' = p ∧ m.condition = heardCondition condition parameters := by
  have hsaid := SubscribeArgs.read_body
    (show SubscribeArgs.body ⟨position.1, some table, position.2, condition, parameters, hkeyed⟩ =
      .ok body from hbody)
  rw [hread] at hsaid
  obtain rfl := (Prod.mk.inj (Except.ok.inj hsaid)).1
  refine ⟨?_, rfl⟩
  obtain ⟨from_, cursor⟩ := position
  rcases hp with hcursor | ⟨hcursor, rfl⟩
  · obtain rfl : cursor = some (t.spell p) := hcursor
    have hwritten : SubscribeMessage.cursor (SubscribeArgs.message
        ⟨from_, some table, some (t.spell p), condition, parameters, hkeyed⟩) =
        some (t.spell p) := by
      rw [SubscribeArgs.message]
      split <;> rfl
    rw [Finds, hwritten] at hfinds
    cases hspell : t.spell p with
    | nil => exact absurd hspell (t.nonempty p)
    | cons d cursor =>
        rw [hspell] at hfinds
        exact t.injective (hfinds.trans hspell.symm)
  · obtain rfl : cursor = none := hcursor
    rw [Finds, SubscribeArgs.message] at hfinds
    cases condition with
    | none => exact hfinds
    | some condition => exact hfinds

variable [DecidableEq ι]

/-- **One connection** hands over a part of a feed from the place its position named, and leaves a
position that names where that part ended. -/
theorem SplitTable.Answers.handed (hkeyed : (Value.object (parameters.getD [])).Keyed)
    {position : ℤ × Option Str} {p : SplitLog.Place ι} (hp : t.Names position p)
    {c c' : Connection} {w w' : World} {sub : Subscription}
    (hsubscribe : Connection.subscribe position.1 (some table) position.2 condition parameters
      (c, w) = .ok sub (c', w')) (hnode : t.Answers (sub.socket w')) (n : ℕ) :
    ∃ items, List.Forall₂ t.Spells items (Subscription.handed n (sub, w')) ∧
      SplitLog.Feed t.parts (t.seen (heardCondition condition parameters)) p items
        (SplitLog.lastPlace p items) ∧
      t.Names (Subscription.stepped n (sub, w')).1.position (SplitLog.lastPlace p items) := by
  obtain ⟨body, hbody, rfl, hcw⟩ := Connection.subscribe_eq_ok hsubscribe
  obtain ⟨-, rfl⟩ := Prod.mk.inj hcw
  cases hnode with
  | @cut body' m p' q items frames events hopen hsent hread hfinds hfeed hspells hbears hflat =>
      have hlast : Frames.frame Frames.SUBSCRIBE body = Frames.frame Frames.SUBSCRIBE body' := by
        have hput := World.put_sockets_self w c.sock
          ((w.sockets c.sock).wrote (Frames.frame Frames.SUBSCRIBE body))
        rw [Subscription.socket, hput, Socket.wrote, List.getLast?_concat] at hsent
        exact Option.some.inj hsent
      obtain rfl := Frames.frame_inj hlast
      obtain ⟨rfl, hcondition⟩ := SplitTable.finds_of_names hkeyed hp hbody hread hfinds
      obtain ⟨hpre, hposition⟩ := Subscription.handed_of_cut hbears (.inr hflat) n
      obtain ⟨later, hlater⟩ := hpre
      rw [← hlater] at hspells
      have hgiven := List.forall₂_take_append items _ _ hspells
      rw [hcondition, ← List.take_append_drop (Subscription.handed n _).length items] at hfeed
      refine ⟨_, hgiven, hfeed.cut.1, ?_⟩
      rw [hposition]
      exact SplitTable.names_moved hp hgiven

/-- **A resumed feed is one feed.** -/
theorem Resubscribed.one_feed (hkeyed : (Value.object (parameters.getD [])).Keyed)
    {start stop : ℤ × Option Str} {events : List Event}
    (h : Resubscribed t table condition parameters start events stop) {p : SplitLog.Place ι}
    (hp : t.Names start p) :
    ∃ items q, List.Forall₂ t.Spells items events ∧
      SplitLog.Feed t.parts (t.seen (heardCondition condition parameters)) p items q ∧
      t.Names stop q := by
  induction h generalizing p with
  | ended position => exact ⟨[], p, .nil, .here p, hp⟩
  | @again start stop c c' w w' sub n rest hsubscribe hnode _ ih =>
      obtain ⟨items, hspells, hfeed, hnames⟩ := hnode.handed hkeyed hp hsubscribe n
      obtain ⟨more, q, hmore, hrest, hstop⟩ := ih hnames
      exact ⟨items ++ more, q, List.rel_append hspells hmore, hfeed.append hrest, hstop⟩

/-- **A resumed feed over a split table loses nothing and repeats nothing.** Whatever way the node
interleaves the parts, wherever each connection is cut off and whenever the caller leaves one, what
is handed over in all is what one feed hands over that was never cut off: of each part what the
condition shows of the entries from the first place to the one the last position names, in order. -/
theorem resumed_split_feed_loses_nothing (hkeyed : (Value.object (parameters.getD [])).Keyed)
    {start stop : ℤ × Option Str} {events : List Event} {p : SplitLog.Place ι}
    (hp : t.Names start p) (h : Resubscribed t table condition parameters start events stop) :
    ∃ items q, List.Forall₂ t.Spells items events ∧
      SplitLog.Feed t.parts (t.seen (heardCondition condition parameters)) p items q ∧
      t.Names stop q ∧ ∀ i, items.filterMap (SplitLog.Item.entryOf i) =
        (((t.parts i).take (q i)).drop (p i)).filterMap
          (t.seen (heardCondition condition parameters)) := by
  obtain ⟨items, q, hspells, hfeed, hstop⟩ := h.one_feed hkeyed hp
  exact ⟨items, q, hspells, hfeed, hstop, fun i => (hfeed.entries_eq i).2⟩

end Resubscribed

/-! ### A feed cut off inside a frame -/

/-- A cursor of two counts. -/
def twoCounts (p : SplitLog.Place Bool) : Str :=
  List.replicate (p true) (codePoint 0x61) ++
    codePoint 0x3A :: List.replicate (p false) (codePoint 0x62)

theorem twoCounts_injective : Function.Injective twoCounts := by
  intro p q h
  have htrue := congrArg (List.count (codePoint 0x61)) h
  have hfalse := congrArg (List.count (codePoint 0x62)) h
  have hab : codePoint 0x61 ≠ codePoint 0x62 := by decide
  have ha : codePoint 0x3A ≠ codePoint 0x61 := by decide
  have hb : codePoint 0x3A ≠ codePoint 0x62 := by decide
  simp [twoCounts, List.count_replicate, hab, hab.symm, ha, hb] at htrue hfalse
  funext b
  cases b
  · exact hfalse
  · exact htrue

/-- A table of two parts, each with one change. -/
def twoParts : SplitTable Bool Change where
  parts b := [removal 1 (if b then "a" else "b")]
  seen _ c := some c
  spell := twoCounts
  injective := twoCounts_injective
  nonempty p h := by simp [twoCounts] at h
  begins _ _ := 0

/-- A connection to a node that will be cut off after the first `k` bytes of these frames. -/
def cutOff (frames : List (ℕ × Bytes)) (k : ℕ) : Connection × World :=
  ((sending []).1, { (sending []).2 with
    sockets := fun _ => .opened (.whole ((Frames.wire frames).take k) .eof) 1 })

/-- The subscription of that connection, and the world after its frame was sent. -/
def cutOffAt (position : ℤ × Option Str) (frames : List (ℕ × Bytes)) (k : ℕ) (body : Bytes) :
    Subscription × World :=
  (⟨{ (cutOff frames k).1 with subscribed := true }, position.1, position.2⟩,
    (cutOff frames k).2.put 0
      (((cutOff frames k).2.sockets 0).wrote (Frames.frame Frames.SUBSCRIBE body)))

/-- Whatever feed a position asks for may be cut off at any byte. -/
theorem Resubscribed.sent {ι α : Type} [DecidableEq ι] {t : SplitTable ι α} {table : Str}
    {start stop : ℤ × Option Str} {body : Bytes} {m : SubscribeMessage} {p q : SplitLog.Place ι}
    {items : List (SplitLog.Item ι Change)} {frames : List (ℕ × Bytes)} {events rest : List Event}
    (hbody : subscribeBody start.1 (some table) start.2 none none = .ok body)
    (hle : body.length ≤ Frames.CEILING) (hread : readSubscribe body = .ok (m, []))
    (hfinds : t.Finds m p) (hfeed : SplitLog.Feed t.parts (t.seen m.condition) p items q)
    (hspells : List.Forall₂ t.Spells items events) (hbears : List.Forall₂ Bears frames events)
    (k n : ℕ)
    (hrest : Resubscribed t table none none
      (Subscription.stepped n (cutOffAt start frames k body)).1.position rest stop) :
    Resubscribed t table none none start
      (Subscription.handed n (cutOffAt start frames k body) ++ rest) stop := by
  have hsend : Frames.send Frames.SUBSCRIBE body ((cutOff frames k).2.sockets 0) = .ok () _ :=
    Frames.send_of_le rfl Nat.one_ne_zero hle
  have hsubscribe : Connection.subscribe start.1 (some table) start.2 none none (cutOff frames k) =
      .ok (cutOffAt start frames k body).1
        ((cutOffAt start frames k body).1.conn, (cutOffAt start frames k body).2) := by
    rw [cutOff, Connection.subscribe_run, if_neg (by decide), if_neg (by decide), hbody,
      Connection.attempt_bind, bind_of_ok (Connection.onSocket_of_ok hsend)]
    rfl
  have hflat : ((cutOffAt start frames k body).1.socket (cutOffAt start frames k body).2).flat =
      (Frames.wire frames).take k := Source.flat_whole ..
  exact .again hsubscribe (.cut rfl rfl hread hfinds hfeed hspells hbears
    (hflat ▸ List.take_prefix ..)) hrest

/-- The place after the first change of the part `true`. -/
def afterOne : SplitLog.Place Bool := SplitLog.advance (fun _ => 0) true

def afterBoth : SplitLog.Place Bool := SplitLog.advance afterOne false

/-- The changes of the two parts, as they are sent when that of `true` is sent first. -/
def sentFirst : Change := { removal 1 "a" with cursor := some (twoCounts afterOne) }

def sentSecond : Change := { removal 1 "b" with cursor := some (twoCounts afterBoth) }

def frameFirst : ℕ × Bytes := (Frames.CHANGE, removalBody 1 0x61 ++ [0, 0, 0, 2, 0x61, 0x3A])

def frameSecond : ℕ × Bytes :=
  (Frames.CHANGE, removalBody 1 0x62 ++ [0, 0, 0, 3, 0x61, 0x3A, 0x62])

set_option maxRecDepth 4096 in
theorem bears_first : Bears frameFirst (.change sentFirst) := ⟨by decide, rfl⟩

set_option maxRecDepth 4096 in
theorem bears_second : Bears frameSecond (.change sentSecond) := ⟨by decide, rfl⟩

/-- The Subscribe bodies of the two connections. -/
def subscribedFirst : Bytes := [0, 0, 0, 0, 0, 0, 0, 0, 1, 0, 0, 0, 1, 0x74]

def subscribedAgain : Bytes :=
  [0, 0, 0, 0, 0, 0, 0, 2, 1, 0, 0, 0, 1, 0x74, 0, 0, 0, 2, 0x61, 0x3A]

set_option maxRecDepth 8192 in
/-- The first connection is cut off inside the second frame. -/
theorem resubscribed_inside : Resubscribed twoParts (ofString "t") none none (0, none)
    [.change sentFirst, .change sentSecond] (2, some (twoCounts afterBoth)) := by
  have hsecond : SplitLog.Feed twoParts.parts (twoParts.seen none) afterOne
      [.entry false (removal 1 "b") afterBoth] afterBoth := .hands rfl rfl (.here _)
  have hfirst : SplitLog.Feed twoParts.parts (twoParts.seen none) (fun _ => 0)
      [.entry true (removal 1 "a") afterOne, .entry false (removal 1 "b") afterBoth] afterBoth :=
    .hands rfl rfl hsecond
  have hspelled : List.Forall₂ twoParts.Spells [.entry false (removal 1 "b") afterBoth]
      [.change sentSecond] := .cons (.entry ..) .nil
  -- The second connection asks for what comes after the cursor of the first change.
  have hbody : subscribeBody 2 (some (ofString "t")) (some (twoCounts afterOne)) none none =
      .ok subscribedAgain := rfl
  have hread : readSubscribe subscribedAgain =
      .ok (⟨2, some (ofString "t"), some (twoCounts afterOne), none⟩, []) := rfl
  have hfinds : twoParts.Finds ⟨2, some (ofString "t"), some (twoCounts afterOne), none⟩ afterOne :=
    rfl
  have hagain : Resubscribed twoParts (ofString "t") none none (2, some (twoCounts afterOne))
      [.change sentSecond] (2, some (twoCounts afterBoth)) :=
    .sent hbody (by decide) hread hfinds hsecond hspelled (.cons bears_second .nil) 100 1 (.ended _)
  have hbody' : subscribeBody 0 (some (ofString "t")) none none none = .ok subscribedFirst := rfl
  have hread' : readSubscribe subscribedFirst = .ok (⟨0, some (ofString "t"), none, none⟩, []) :=
    rfl
  have hfinds' : twoParts.Finds ⟨0, some (ofString "t"), none, none⟩ fun _ => 0 := rfl
  exact .sent hbody' (by decide) hread' hfinds' hfirst (.cons (.entry ..) hspelled)
    (.cons bears_first (.cons bears_second .nil)) 40 2 hagain

/-- Nothing of the change that was cut off is lost, and nothing is handed over twice. -/
theorem resumed_split_feed_inside_a_frame : ∃ items q,
    List.Forall₂ twoParts.Spells items [.change sentFirst, .change sentSecond] ∧
    SplitLog.Feed twoParts.parts (twoParts.seen (heardCondition none none)) (fun _ => 0) items q ∧
    twoParts.Names (2, some (twoCounts afterBoth)) q ∧
    ∀ i, items.filterMap (SplitLog.Item.entryOf i) =
      (((twoParts.parts i).take (q i)).drop 0).filterMap
        (twoParts.seen (heardCondition none none)) :=
  resumed_split_feed_loses_nothing (by exact ⟨List.nodup_nil, trivial⟩) (.inr ⟨rfl, rfl⟩)
    resubscribed_inside

end TessariDB
