import TessariDB.Frames

/-!
# The Frame Layer Reads a Stream

A greeting followed by any number of reads, on a stream however the network cuts it. What it
comes to is fixed by the bytes and the way they end (`readMany_congr`), frames written are
frames read (`readMany_frames`), and a read takes the bytes of its frame and no more.

## Main results

* `readMany_congr`, `converse_congr`: the cuts do not matter.
* `frame_layer_reads_a_stream`: the frame layer as a whole.
-/

namespace TessariDB

open ByteCodec ByteStream BigEndian

namespace Frames

/-- `n` reads in a row, each of them whatever the one before came to. -/
def readMany : ℕ → Socket → List (Except Raised (Option (ℕ × Bytes)))
  | 0, _ => []
  | n + 1, s => outcome (read s) :: readMany n (after (read s))

/-- A greeting, and if it is answered, `n` reads. -/
def converse (n : ℕ) (s : Socket) :
    Except Raised ((ℕ × ℕ) × List (Except Raised (Option (ℕ × Bytes)))) :=
  match greet s with
  | .error e _ => .error e
  | .ok version s' => .ok (version, readMany n s')

/-- Frames out, one after another. -/
def sendMany : List (ℕ × Bytes) → EStateM Raised Socket Unit
  | [] => pure ()
  | (kind, body) :: frames => do
      send kind body
      sendMany frames

/-- The bytes of a list of frames. -/
def wire (frames : List (ℕ × Bytes)) : Bytes := frames.flatMap fun f => frame f.1 f.2

/-- The same socket on the same stream in one piece. -/
def unsplit (s : Socket) : Socket :=
  { s with source := .whole s.flat s.source.ending }

/-- Two open sockets with the same bytes to come. -/
structure Alike (s t : Socket) : Prop where
  flat : s.flat = t.flat
  ending : s.source.ending = t.source.ending
  opened : s.closed = false
  opened' : t.closed = false

theorem alike_unsplit {s : Socket} (hopen : s.closed = false) : Alike s (unsplit s) where
  flat := (Source.flat_whole ..).symm
  ending := rfl
  opened := hopen
  opened' := hopen

theorem read_alike {s t : Socket} (h : Alike s t) :
    outcome (read s) = outcome (read t) ∧ Alike (after (read s)) (after (read t)) := by
  obtain ⟨s', hadv, hs⟩ := read_spec h.opened
  obtain ⟨t', hadv', ht⟩ := read_spec h.opened'
  rw [← h.flat, ← h.ending] at hadv' ht
  rw [hs, ht]
  refine ⟨by simp, ?_⟩
  simp only [after_settle]
  refine ⟨?_, hadv.ending.trans (h.ending.trans hadv'.ending.symm),
    hadv.closed.trans h.opened, hadv'.closed.trans h.opened'⟩
  rw [hadv.flat_eq_drop, hadv'.flat_eq_drop, h.flat]

/-- The cuts of a stream do not matter to the frames read from it. -/
theorem readMany_congr {s t : Socket} (h : Alike s t) (n : ℕ) : readMany n s = readMany n t := by
  induction n generalizing s t with
  | zero => rfl
  | succ n ih =>
      obtain ⟨hout, hafter⟩ := read_alike h
      rw [readMany, readMany, hout, ih hafter]

/-- Nor do they matter to a whole conversation, up to the wording of an error. -/
theorem converse_congr {s t : Socket} (h : Alike s t) (hsends : s.sends = t.sends) (n : ℕ) :
    (converse n s).mapError Raised.errorClass = (converse n t).mapError Raised.errorClass := by
  simp only [converse]
  by_cases hzero : s.sends = 0
  · obtain ⟨_, hs⟩ := greet_of_unsent (.inr hzero)
    obtain ⟨_, ht⟩ := greet_of_unsent (.inr (hsends ▸ hzero))
    rw [hs, ht]
    rfl
  have hgreet := greet_spec h.opened' (hsends ▸ hzero)
  rw [← h.flat, ← h.ending] at hgreet
  rcases greet_spec h.opened hzero with ⟨v, s', hs, hadv, hv⟩ | ⟨e, s', b, hs, -, he⟩
  · rcases hgreet with ⟨v', t', ht, hadv', hv'⟩ | ⟨e', t', b', ht, -, he'⟩
    · rw [hv] at hv'
      obtain rfl := Except.ok.inj hv'
      have halike : Alike s' t' := by
        refine ⟨?_, hadv.ending.trans (h.ending.trans hadv'.ending.symm),
          hadv.closed.trans h.opened, hadv'.closed.trans h.opened'⟩
        have hflat : (s.wrote GREETING).flat = (t.wrote GREETING).flat := h.flat
        rw [hadv.flat_eq_drop, hadv'.flat_eq_drop, hflat]
      rw [hs, ht]
      exact congrArg (fun reads => Except.ok (v, reads)) (readMany_congr halike n)
    · cases hv.symm.trans he'
  · rcases hgreet with ⟨v', t', ht, -, hv'⟩ | ⟨e', t', b', ht, -, he'⟩
    · cases hv'.symm.trans he
    · rw [hs, ht]
      exact congrArg Except.error (Except.error.inj (he.symm.trans he'))

/-! ### Frames written are frames read -/

theorem sendMany_eq_ok {frames : List (ℕ × Bytes)} {s s' : Socket}
    (h : sendMany frames s = .ok () s') :
    (∀ f ∈ frames, f.2.length ≤ CEILING) ∧ s'.sent.flatten = s.sent.flatten ++ wire frames := by
  induction frames generalizing s with
  | nil =>
      obtain ⟨-, rfl⟩ := EStateM.Result.ok.inj h
      simp [wire]
  | cons f frames ih =>
      obtain ⟨kind, body⟩ := f
      rw [sendMany] at h
      rcases hsend : send kind body s with ⟨⟨⟩, s₁⟩ | ⟨e, s₁⟩
      · rw [bind_of_ok hsend] at h
        obtain ⟨hbody, rfl⟩ := send_eq_ok hsend
        obtain ⟨hall, hsent⟩ := ih h
        refine ⟨List.forall_mem_cons.mpr ⟨hbody, hall⟩, ?_⟩
        rw [hsent]
        simp [Socket.wrote, wire]
      · rw [bind_of_error hsend] at h
        cases h

theorem sendMany_ok {frames : List (ℕ × Bytes)} {s : Socket} (hopen : s.closed = false)
    (hsends : frames.length ≤ s.sends) (hbodies : ∀ f ∈ frames, f.2.length ≤ CEILING) :
    ∃ s', sendMany frames s = .ok () s' := by
  induction frames generalizing s with
  | nil => exact ⟨s, rfl⟩
  | cons f frames ih =>
      obtain ⟨kind, body⟩ := f
      obtain ⟨hbody, hrest⟩ := List.forall_mem_cons.mp hbodies
      rw [List.length_cons] at hsends
      obtain ⟨s', hrun⟩ := ih (s := s.wrote (frame kind body)) hopen
        (Nat.le_sub_one_of_lt hsends) hrest
      refine ⟨s', ?_⟩
      rw [sendMany, bind_of_ok (send_of_le hopen (by omega) hbody), hrun]

/-- Reading a list of frames leaves what follows it. -/
theorem readMany_frames {frames : List (ℕ × Bytes)}
    (hframes : ∀ f ∈ frames, f.1 ∈ FROM_NODE ∧ f.2.length ≤ CEILING) (rest : Bytes) {s : Socket}
    (hopen : s.closed = false) (hflat : s.flat = wire frames ++ rest) :
    ∃ s', s'.flat = rest ∧ s'.source.ending = s.source.ending ∧ s'.closed = false ∧
      ∀ n, readMany (frames.length + n) s =
        frames.map (fun f => .ok (some f)) ++ readMany n s' := by
  induction frames generalizing s with
  | nil => exact ⟨s, hflat, rfl, hopen, fun n => by simp⟩
  | cons f frames ih =>
      obtain ⟨⟨hkind, hbody⟩, htail⟩ := List.forall_mem_cons.mp hframes
      have hsplit : s.flat = frame f.1 f.2 ++ (wire frames ++ rest) := by
        rw [hflat, wire, List.flatMap_cons, List.append_assoc]
        rfl
      obtain ⟨s₁, hadv, hrun⟩ := read_spec hopen
      rw [hsplit, frameOf_frame hkind hbody, List.take_left] at hadv
      rw [hsplit, frameOf_frame hkind hbody] at hrun
      have hflat₁ : s₁.flat = wire frames ++ rest :=
        List.append_cancel_left (hadv.flat.symm.trans hsplit)
      obtain ⟨s', hrest, hend, hopen', hreads⟩ := ih htail (hadv.closed.trans hopen) hflat₁
      refine ⟨s', hrest, hend.trans hadv.ending, hopen', fun n => ?_⟩
      rw [List.length_cons, Nat.succ_add, readMany, hrun, outcome_settle, after_settle, hreads]
      rfl

/-- A read that returned a frame took that frame. -/
theorem read_eq_some {s s' : Socket} {kind : ℕ} {body : Bytes} (hopen : s.closed = false)
    (h : read s = .ok (some (kind, body)) s') :
    kind ∈ FROM_NODE ∧ body.length ≤ CEILING ∧ s.Advanced s' (frame kind body) := by
  obtain ⟨s₁, hadv, hrun⟩ := read_spec hopen
  rw [h] at hrun
  rcases hframe : frameOf s.flat s.source.ending with ⟨e | r, n⟩
  · rw [hframe] at hrun
    cases hrun
  · rw [hframe] at hrun hadv
    obtain ⟨rfl, rfl⟩ := EStateM.Result.ok.inj hrun
    obtain ⟨hkind, hbody, htake⟩ := frameOf_eq_some hframe
    exact ⟨hkind, hbody, htake ▸ hadv⟩

end Frames

open Frames

/-- **The frame layer reads a stream.** A greeting and any number of reads come to the same
however the stream is cut; a read takes its frame and nothing after it; the frames that
`send` wrote are the frames `read` returns, and then a clean end; a stream that ends inside a
frame is truncated after the frames before it; and a length above the ceiling is refused
before a byte of the body is read. -/
theorem frame_layer_reads_a_stream :
    (∀ (s : Socket) (n : ℕ), s.closed = false →
      (converse n s).mapError Raised.errorClass =
        (converse n (unsplit s)).mapError Raised.errorClass) ∧
    (∀ (s s' : Socket) (kind : ℕ) (body : Bytes), s.closed = false →
      read s = .ok (some (kind, body)) s' →
      s.flat = frame kind body ++ s'.flat ∧ s'.taken = s.taken ++ frame kind body) ∧
    (∀ (frames : List (ℕ × Bytes)) (t : Socket),
      (∀ f ∈ frames, f.1 ∈ FROM_NODE ∧ f.2.length ≤ CEILING) →
      t.closed = false → frames.length ≤ t.sends → t.sent = [] →
      ∃ t', sendMany frames t = .ok () t' ∧
        ∀ s : Socket, s.closed = false → s.source.ending = .eof → s.flat = t'.sent.flatten →
          readMany (frames.length + 1) s =
            frames.map (fun f => .ok (some f)) ++ [.ok none]) ∧
    (∀ (frames : List (ℕ × Bytes)) (kind : ℕ) (body p q : Bytes) (t : Socket),
      (∀ f ∈ frames ++ [(kind, body)], f.1 ∈ FROM_NODE ∧ f.2.length ≤ CEILING) →
      t.closed = false → (frames ++ [(kind, body)]).length ≤ t.sends → t.sent = [] →
      frame kind body = p ++ q → p ≠ [] → q ≠ [] →
      ∃ t', sendMany (frames ++ [(kind, body)]) t = .ok () t' ∧
        ∀ s : Socket, s.closed = false → s.source.ending = .eof →
          t'.sent.flatten = s.flat ++ q →
          ∃ message, readMany (frames.length + 1) s =
            frames.map (fun f => .ok (some f)) ++ [.error (.truncated message)]) ∧
    (∀ (s : Socket) (byte : UInt8) (length rest : Bytes), s.closed = false →
      s.flat = byte :: (length ++ rest) → length.length = 4 → CEILING < ofBytes length →
      ∃ s', read s = .error (.tooLarge (ofBytes length) CEILING) s' ∧ s'.flat = rest) := by
  refine ⟨fun s n hopen => converse_congr (alike_unsplit hopen) rfl n, ?_, ?_, ?_, ?_⟩
  · intro s s' kind body hopen h
    obtain ⟨-, -, hadv⟩ := read_eq_some hopen h
    exact ⟨hadv.flat, hadv.taken⟩
  · intro frames t hframes hready hroom hsent
    obtain ⟨t', hsend⟩ := sendMany_ok hready hroom fun f hf => (hframes f hf).2
    refine ⟨t', hsend, fun s hopen hend hflat => ?_⟩
    rw [(sendMany_eq_ok hsend).2, hsent] at hflat
    obtain ⟨s', hrest, hend', hopen', hreads⟩ := readMany_frames hframes [] hopen
      (by simpa using hflat)
    obtain ⟨s₁, -, hrun⟩ := read_spec hopen'
    rw [hrest, hend', hend] at hrun
    rw [hreads 1, readMany, readMany, hrun, outcome_settle]
    rfl
  · intro frames kind body p q t hframes hready hroom hsent hframe hp hq
    obtain ⟨t', hsend⟩ := sendMany_ok hready hroom fun f hf => (hframes f hf).2
    refine ⟨t', hsend, fun s hopen hend hflat => ?_⟩
    have hwire := (sendMany_eq_ok hsend).2
    have hflat' : s.flat = wire frames ++ p := by
      rw [hflat, hsent] at hwire
      simp only [wire, List.flatMap_append, List.flatMap_cons, List.flatMap_nil,
        List.append_nil, hframe, List.flatten_nil, List.nil_append] at hwire
      rw [← List.append_assoc] at hwire
      exact List.append_cancel_right hwire
    obtain ⟨s', hrest, hend', hopen', hreads⟩ := readMany_frames
      (fun f hf => hframes f (List.mem_append_left _ hf)) p hopen hflat'
    obtain ⟨hkind, hbody⟩ := hframes (kind, body) (by simp)
    obtain ⟨message, hcut⟩ := frameOf_cut hkind hbody hframe hp hq
    obtain ⟨s₁, -, hrun⟩ := read_spec hopen'
    rw [hrest, hend', hend, hcut] at hrun
    refine ⟨message, ?_⟩
    rw [hreads 1, readMany, readMany, hrun, outcome_settle]
  · intro s byte length rest hopen hflat hlen hbig
    obtain ⟨s', hadv, hrun⟩ := read_spec hopen
    rw [hflat, frameOf_tooLarge hlen hbig] at hadv hrun
    refine ⟨s', hrun, ?_⟩
    have htake : (byte :: (length ++ rest)).take 5 = byte :: length := by
      rw [List.take_succ_cons, List.take_left' hlen]
    rw [htake] at hadv
    have hsplit := hadv.flat.symm.trans hflat
    exact (List.append_right_inj (byte :: length)).mp hsplit

/-- One frame in three pieces that do not respect its fields. -/
theorem frame_layer_reads_a_stream_in_pieces :
    readMany 2 (.opened ⟨[⟨[2, 0], by decide⟩, ⟨[0, 0, 1], by decide⟩, ⟨[7], by decide⟩], .eof⟩ 0)
      = [.ok (some (ANSWER, [7])), .ok none] := by
  obtain ⟨t', hsend, hread⟩ := frame_layer_reads_a_stream.2.2.1 [(ANSWER, [7])]
    (.opened (.whole [] .eof) 1) (by decide) rfl (by decide) rfl
  obtain ⟨-, rfl⟩ := EStateM.Result.ok.inj (hsend.symm.trans (rfl : _ = EStateM.Result.ok () _))
  exact hread _ rfl rfl rfl

end TessariDB
