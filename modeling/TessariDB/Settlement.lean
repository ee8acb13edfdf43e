import TessariDB.Follow

/-!
# What a Redirect Leaves Behind

A settled redirect says the session lives on another node now, a transient one only where this
request is answered. `followed` looks at the settlement of the last redirect of a chain, so a
chain that ends in a settled redirect moves the connection whatever came before.

## Main results

* `execute_visits`: the redirects a call followed to its answer, and where it was left.
* `transient_redirects_are_forgotten`: a call leaves the connection as the settlements say exactly
  when its last redirect is transient, or all of them are settled.
-/

namespace TessariDB

open ByteCodec ByteStream Utf8

/-- The redirects a call followed to its answer: the first answered its own request, each of the
others is the last reply that was received over the socket before, and the last reply of all is the
answer. The sockets are those opened meanwhile, and what was said over each is what it sent and
received. -/
structure Followed (script : Str) (ps : List (Str × Value)) (c : Connection) (w : World)
    (visits : List Visit) : Prop where
  first : ∀ reply, outcome (Connection.ask script ps (c, w)) = .ok reply →
    reply.redirect = visits.head?.map Visit.redirect
  chain : visits.IsChain Visit.Redirects
  answered : ∀ v ∈ visits.getLast?, ∃ k b reply, v.replies.getLast? = some (k, b) ∧
    Connection.replyOf k b = .ok reply ∧ reply.redirect = none ∧
    outcome (Connection.execute script ps (c, w)) = .ok reply
  safe : ∃ selecting, ∀ v ∈ visits, v.Safe script ps selecting c.login
    ((after (Connection.execute script ps (c, w))).2.sockets v.sock)
  socks : visits.map Visit.sock = List.range' w.opened visits.length
  opened : (after (Connection.execute script ps (c, w))).2.opened = w.opened + visits.length

/-- The connection a call leaves: it uses the socket that answered if every redirect was settled,
and otherwise its own, with its minor, and owing what the call's own request left owed; every
other connection opened on the way is closed. -/
def LeftBySettlement (script : Str) (ps : List (Str × Value)) (c : Connection) (w : World)
    (visits : List Visit) : Prop :=
  (if ∀ v ∈ visits, v.redirect.settlement = .settled then
    (after (Connection.execute script ps (c, w))).1.sock =
      (visits.getLast?.map Visit.sock).getD c.sock
  else (after (Connection.execute script ps (c, w))).1.sock = c.sock ∧
    (after (Connection.execute script ps (c, w))).1.minor = c.minor ∧
    (after (Connection.execute script ps (c, w))).1.owed =
      (after (Connection.ask script ps (c, w))).1.owed) ∧
  ∀ v ∈ visits, v.sock ≠ (after (Connection.execute script ps (c, w))).1.sock →
    ((after (Connection.execute script ps (c, w))).2.sockets v.sock).closed = true

/-- Every connection opened by a loop is closed again, except the one it moved to. -/
theorem Follow.Ended.closed {c : Connection} {w : World} {visits : List Visit}
    {r : EStateM.Result Raised (Connection × World) Reply} (h : Ended c w visits r) :
    ∀ v ∈ visits, v.sock ≠ (after r).1.sock → ((after r).2.sockets v.sock).closed = true := by
  intro v hv hne
  cases h with
  | stayed _ _ hclosed => exact hclosed v hv
  | moved reply last minor _ hlast hc _ _ _ hclosed =>
      rw [← List.dropLast_append_getLast? last hlast, List.mem_append, List.mem_singleton] at hv
      rcases hv with hv | rfl
      · exact hclosed v hv
      · rw [hc] at hne
        exact absurd rfl hne

/-- **A call that is answered** followed some redirects; if any, the last of them decides where
the connection is left. -/
theorem execute_visits (script : Str) (ps : List (Str × Value)) {c : Connection} {w : World}
    (hown : c.sock < w.opened) {reply : Reply}
    (hanswer : outcome (Connection.execute script ps (c, w)) = .ok reply) :
    ∃ visits, Followed script ps c w visits ∧
      (∀ v ∈ visits, w.opened ≤ v.sock) ∧
      (∀ v ∈ visits, v.sock ≠ (after (Connection.execute script ps (c, w))).1.sock →
        ((after (Connection.execute script ps (c, w))).2.sockets v.sock).closed = true) ∧
      (visits = [] ∧ (after (Connection.execute script ps (c, w))).1.sock = c.sock ∨
        ∃ v, visits.getLast? = some v ∧
          (v.redirect.settlement = .settled ∧
              (after (Connection.execute script ps (c, w))).1.sock = v.sock ∨
            v.redirect.settlement = .transient ∧
              (after (Connection.execute script ps (c, w))).1 =
                (after (Connection.ask script ps (c, w))).1)) := by
  rcases Connection.execute_spec script ps hown with ⟨hexecute, hnone⟩ |
    ⟨first, redirect, s₁, s₂, hask, hredirect, hrest⟩
  · obtain ⟨c', s', hafter, hc'⟩ := Connection.ask_stays script ps c w
    refine ⟨[], ⟨hnone, .nil, nofun, ⟨[], List.forall_mem_nil _⟩, rfl, ?_⟩,
      List.forall_mem_nil _, List.forall_mem_nil _, .inl ⟨rfl, ?_⟩⟩
    · rw [hexecute, hafter]
      rfl
    · rw [hexecute, hafter]
      exact Follow.sock_of_spent hc'
  rcases hrest with ⟨e, -, hexecute⟩ | ⟨selecting, visits, -, htrail, hlanded⟩
  · rw [hexecute] at hanswer
    cases hanswer
  obtain ⟨v, k, b, hlast, hreply, hread, hnone, hsettlement⟩ := hlanded reply hanswer
  have hsocks : ∀ v ∈ visits, w.opened ≤ v.sock := fun v hv =>
    (htrail.mem_socks.mp (List.mem_map_of_mem hv)).1
  refine ⟨visits, ⟨?_, htrail.chain.imp fun _ _ h => h.2, ?_, ⟨selecting, htrail.safe⟩,
    htrail.socks, htrail.opened⟩, hsocks, htrail.ended.closed, .inr ⟨v, hlast, ?_⟩⟩
  · intro reply' h
    rw [hask] at h
    obtain rfl := Except.ok.inj h
    cases hhead : visits.head? with
    | none =>
        rw [List.head?_eq_none_iff] at hhead
        rw [hhead] at hlast
        cases hlast
    | some v => rw [hredirect, Option.map_some, (htrail.first v hhead).1]
  · intro last h
    obtain rfl : v = last := Option.some.inj (hlast.symm.trans h)
    exact ⟨k, b, reply, hreply, hread, hnone, hanswer⟩
  · rw [hask]
    exact hsettlement

/-- **A transient redirect is forgotten** by a call that is answered if and only if it is the last
of its chain, or there is none in the chain. -/
theorem transient_redirects_are_forgotten (script : Str) (ps : List (Str × Value))
    {c : Connection} {w : World} (hown : c.sock < w.opened) {reply : Reply}
    (hanswer : outcome (Connection.execute script ps (c, w)) = .ok reply) :
    ∃ visits, Followed script ps c w visits ∧
      (LeftBySettlement script ps c w visits ↔
        (∀ v ∈ visits, v.redirect.settlement = .settled) ∨
          ∃ v ∈ visits.getLast?, v.redirect.settlement = .transient) := by
  obtain ⟨visits, hfollowed, hsocks, hclosed, hleft⟩ := execute_visits script ps hown hanswer
  refine ⟨visits, hfollowed, ?_⟩
  rcases hleft with ⟨rfl, hsock⟩ | ⟨v, hlast, hleft⟩
  · have hall : ∀ v ∈ ([] : List Visit), v.redirect.settlement = .settled := List.forall_mem_nil _
    rw [LeftBySettlement, if_pos hall]
    exact ⟨fun _ => .inl hall, fun _ => ⟨hsock, hclosed⟩⟩
  have hv : v ∈ visits := List.mem_of_getLast? hlast
  rw [LeftBySettlement]
  constructor
  · rintro ⟨hconnection, -⟩
    rcases hleft with ⟨-, hsock⟩ | ⟨htransient, -⟩
    · left
      by_contra hmixed
      rw [if_neg hmixed, hsock] at hconnection
      have hle := hsocks v hv
      omega
    · exact .inr ⟨v, hlast, htransient⟩
  · intro hcondition
    refine ⟨?_, hclosed⟩
    rcases hleft with ⟨hsettled, hsock⟩ | ⟨htransient, hconnection⟩
    · have hall : ∀ v ∈ visits, v.redirect.settlement = .settled := by
        refine hcondition.resolve_right ?_
        rintro ⟨v', hv', htransient⟩
        rw [hlast] at hv'
        obtain rfl : v = v' := Option.some.inj hv'
        rw [hsettled] at htransient
        cases htransient
      rw [if_pos hall, hlast]
      exact hsock
    · have hmixed : ¬ ∀ v ∈ visits, v.redirect.settlement = .settled := fun hall => by
        rw [hall v hv] at htransient
        cases htransient
      obtain ⟨c', s', hafter, hc'⟩ := Connection.ask_stays script ps c w
      rw [if_neg hmixed, hconnection, hafter]
      exact ⟨Follow.sock_of_spent hc', by rcases hc' with rfl | rfl <;> rfl, rfl⟩

/-- A redirect frame to a node of sixteen equal bytes. -/
def Follow.elsewhereFrame (node settlement : UInt8) (endpoint : Bytes) : Bytes :=
  Frames.frame Frames.ELSEWHERE (List.replicate 16 node ++
    ([0, 0, 0, 0, 0, 0, 0, 7, settlement, 0, 0, 0, 3] ++ endpoint))

/-- The frame in which such a node says who it is. -/
def Follow.contextFrame (node : UInt8) : Bytes :=
  Frames.frame Frames.ANSWER (valueAnswer ([0x0D, 0, 0, 0, 1, 0, 0, 0, 4, 0x6E, 0x6F, 0x64, 0x65,
    0x09] ++ List.replicate 16 node))

/-- A node that redirects to `b:1` for this request only; `b:1`, which says the session lives on
`c:1` now; and `c:1`, which answers. -/
def Follow.mixing : World where
  sockets _ := .opened (.whole (elsewhereFrame 0x42 2 [0x62, 0x3A, 0x31] ++
    Frames.frame Frames.ANSWER (valueAnswer [0x0D, 0, 0, 0, 0])) .eof) 2
  opened := 1
  dials := [.opened (.whole (Frames.GREETING ++ (contextFrame 0x42 ++
      elsewhereFrame 0x43 1 [0x63, 0x3A, 0x31])) .eof) 3,
    .opened (.whole (Frames.GREETING ++ (contextFrame 0x43 ++
      Frames.frame Frames.ANSWER (valueAnswer [0x02]))) .eof) 3]
  isDigit c := c == codePoint 0x31
  repr _ := ""

/-- A connection of nobody, on the first socket. -/
def Follow.nobody : Connection := ⟨0, none, none, false, false, 4⟩

theorem Follow.exists_outcome_ok {r : EStateM.Result Raised (Connection × World) Reply}
    (h : (outcome r).toBool = true) : ∃ reply, outcome r = .ok reply := by
  cases hr : outcome r with
  | error e =>
      rw [hr] at h
      cases h
  | ok reply => exact ⟨reply, rfl⟩

/-- A transient redirect is remembered when a settled one follows. -/
theorem transient_before_settled_is_remembered :
    ∃ visits, Followed (ofString "RETURN 1;") [] Follow.nobody Follow.mixing visits ∧
      ¬ LeftBySettlement (ofString "RETURN 1;") [] Follow.nobody Follow.mixing visits := by
  obtain ⟨reply, hanswer⟩ := Follow.exists_outcome_ok (r := Connection.execute
    (ofString "RETURN 1;") [] (Follow.nobody, Follow.mixing)) (by decide +kernel)
  obtain ⟨visits, hfollowed, -⟩ := execute_visits (ofString "RETURN 1;") [] (c := Follow.nobody)
    (w := Follow.mixing) Nat.one_pos hanswer
  refine ⟨visits, hfollowed, fun hleft => ?_⟩
  have hmoved : (after (Connection.execute (ofString "RETURN 1;") []
      (Follow.nobody, Follow.mixing))).1.sock = 2 := by decide +kernel
  have hasked : (outcome (Connection.ask (ofString "RETURN 1;") []
      (Follow.nobody, Follow.mixing))).map
        (fun reply => reply.redirect.map Elsewhere.settlement) = .ok (some .transient) := by
    decide +kernel
  cases hask : outcome (Connection.ask (ofString "RETURN 1;") []
      (Follow.nobody, Follow.mixing)) with
  | error e =>
      rw [hask] at hasked
      cases hasked
  | ok first =>
      have hfirst := hfollowed.first first hask
      rw [hask] at hasked
      have htransient : first.redirect.map Elsewhere.settlement = some .transient :=
        Except.ok.inj hasked
      rw [hfirst, Option.map_map] at htransient
      obtain ⟨v, hv, hsettlement⟩ := Option.map_eq_some_iff.mp htransient
      have hmixed : ¬ ∀ v ∈ visits, v.redirect.settlement = .settled := fun hall => by
        have hsettled := hall v (List.mem_of_head? hv)
        exact absurd (hsettled.symm.trans hsettlement) Settlement.noConfusion
      rw [LeftBySettlement, if_neg hmixed, hmoved] at hleft
      exact absurd hleft.1.1 (Nat.succ_ne_zero 1)

/-- A chain of one transient redirect leaves the connection where it was. -/
theorem transient_redirect_is_forgotten :
    ∃ visits, Followed (ofString "RETURN 1;") [] Follow.nobody Follow.redirecting visits ∧
      (LeftBySettlement (ofString "RETURN 1;") [] Follow.nobody Follow.redirecting visits ↔
        (∀ v ∈ visits, v.redirect.settlement = .settled) ∨
          ∃ v ∈ visits.getLast?, v.redirect.settlement = .transient) := by
  obtain ⟨reply, hanswer⟩ := Follow.exists_outcome_ok (r := Connection.execute
    (ofString "RETURN 1;") [] (Follow.nobody, Follow.redirecting)) (by decide +kernel)
  exact transient_redirects_are_forgotten (ofString "RETURN 1;") [] (c := Follow.nobody)
    (w := Follow.redirecting) Nat.one_pos hanswer

end TessariDB
