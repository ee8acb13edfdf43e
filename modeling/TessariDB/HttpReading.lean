import TessariDB.Grammar
import TessariDB.HttpRequests

/-!
# HTTP Requests Read Back

What a node makes of a request: the percent-encoding of a path undone, the target taken apart into
the names in it, the method and the body put to it; and the login in an `Authorization` header.

A target never ends the line it stands on: each of its characters is a visible one of ASCII.

## Main results

* `unquote_of_quote`, `readAddress_of_bucketPath`, `readAddress_of_filePath`,
  `readAddress_of_seriesPath`: a target reads back as what it names.
* `requests_are_read_back`: a request reads back as the call it is of.
* `logins_are_read_back`: a header reads back as the login it is of.
-/

namespace TessariDB

open ByteCodec Utf8 Text Hex Grammar

namespace Http

/-! ### Percent-encoding -/

def PERCENT : CodePoint := codePoint 0x25
def SLASH : CodePoint := codePoint 0x2F

/-- What a node reads in a path: an escape is the byte of its two digits. -/
def unquoteBytes : Str → Option Bytes
  | [] => some []
  | c :: rest =>
      if c ≠ PERCENT then (unquoteBytes rest).map (UInt8.ofNat c.val :: ·)
      else
        match rest with
        | high :: low :: rest => do
            let high ← hexValue high
            let low ← hexValue low
            let raw ← unquoteBytes rest
            return UInt8.ofNat (16 * high + low) :: raw
        | _ => none

theorem unquoteBytes_plain {c : CodePoint} (h : c ≠ PERCENT) (rest : Str) :
    unquoteBytes (c :: rest) = (unquoteBytes rest).map (UInt8.ofNat c.val :: ·) := by
  rw [unquoteBytes.eq_def]
  exact if_pos h

theorem unquoteBytes_escape {high low : CodePoint} {h l : ℕ} (hhigh : hexValue high = some h)
    (hlow : hexValue low = some l) (rest : Str) :
    unquoteBytes (PERCENT :: high :: low :: rest) =
      (unquoteBytes rest).map (UInt8.ofNat (16 * h + l) :: ·) := by
  rw [unquoteBytes, if_neg (not_not.mpr rfl), hhigh, hlow]
  cases unquoteBytes rest <;> rfl

def unquote (text : Str) : Option Str := (unquoteBytes text).bind Utf8.decode

theorem hexValue_upperDigit {d : ℕ} (h : d < 16) : hexValue (upperDigit d) = some d := by
  have hval : (upperDigit d).val = if d < 10 then 0x30 + d else 0x37 + d := by
    rw [upperDigit, val_codePoint]
    split <;> omega
  rw [hexValue, hval]
  by_cases hd : d < 10
  · rw [if_pos hd, if_pos (by omega), Nat.add_sub_cancel_left]
  · rw [if_neg hd, if_neg (by omega), if_neg (by omega), if_pos (by omega),
      Nat.add_sub_cancel_left]

theorem val_byte (b : UInt8) : (codePoint b.toNat).val = b.toNat :=
  val_codePoint (b.toNat_lt.trans (by decide))

/-- The sign of an escape is no safe byte. -/
theorem ne_percent_of_safe {b : UInt8} (h : IsSafe b) : codePoint b.toNat ≠ PERCENT := by
  intro heq
  have hval := congrArg Fin.val heq
  rw [val_byte] at hval
  obtain rfl : b = 0x25 := UInt8.toNat_inj.mp hval
  exact absurd h (by decide)

/-- **What was quoted is unquoted**, byte by byte. -/
theorem unquoteBytes_flatMap (raw : Bytes) : unquoteBytes (raw.flatMap fun b =>
    if IsSafe b then [codePoint b.toNat]
    else [codePoint 0x25, upperDigit (b.toNat / 16), upperDigit (b.toNat % 16)]) = some raw := by
  induction raw with
  | nil => rfl
  | cons b raw ih =>
      rw [List.flatMap_cons]
      by_cases hsafe : IsSafe b
      · rw [if_pos hsafe, List.singleton_append, unquoteBytes_plain (ne_percent_of_safe hsafe), ih,
          val_byte, UInt8.ofNat_toNat]
        rfl
      · have hlt := b.toNat_lt
        have hhigh : b.toNat / 16 < 16 := by omega
        have hlow : b.toNat % 16 < 16 := Nat.mod_lt _ (by omega)
        have hescape := unquoteBytes_escape (hexValue_upperDigit hhigh) (hexValue_upperDigit hlow)
          (raw.flatMap fun b => if IsSafe b then [codePoint b.toNat]
            else [codePoint 0x25, upperDigit (b.toNat / 16), upperDigit (b.toNat % 16)])
        rw [Nat.div_add_mod, UInt8.ofNat_toNat, ih] at hescape
        rw [if_neg hsafe]
        exact hescape

theorem encodeUtf8_eq_ok {s : Str} {raw : Bytes} (h : encodeUtf8 s = .ok raw) :
    Utf8.decode raw = some s := by
  rw [encodeUtf8] at h
  split at h
  · next hraw =>
    obtain rfl := Except.ok.inj h
    exact decode_eq_some_iff.mpr hraw
  · cases h

theorem unquote_of_quote {path quoted : Str} (h : quote path = .ok quoted) :
    unquote quoted = some path := by
  obtain ⟨raw, hraw, hquoted⟩ := Sequences.bind_eq_ok.mp h
  obtain rfl := Except.ok.inj hquoted
  rw [unquote, unquoteBytes_flatMap, Option.bind_some]
  exact encodeUtf8_eq_ok hraw

/-- A visible character of ASCII. -/
def Visible (c : CodePoint) : Prop := 0x21 ≤ c.val ∧ c.val ≤ 0x7E

instance (c : CodePoint) : Decidable (Visible c) := instDecidableAnd

theorem visible_of_word {c : CodePoint} (h : IsWord c) : Visible c := by
  rw [IsWord, IsLetter, IsDigit] at h
  rw [Visible]
  omega

theorem visible_of_digit {d : ℕ} (h : d < 16) : Visible (upperDigit d) := by
  rw [Visible, upperDigit, val_codePoint (by split <;> omega)]
  split <;> omega

theorem visible_of_safe {b : UInt8} (h : IsSafe b) : Visible (codePoint b.toNat) := by
  rcases h with h | rfl | rfl | rfl | rfl
  · exact visible_of_word h
  all_goals decide

theorem visible_of_quote {path quoted : Str} (h : quote path = .ok quoted) :
    ∀ c ∈ quoted, Visible c := by
  obtain ⟨raw, -, hquoted⟩ := Sequences.bind_eq_ok.mp h
  obtain rfl := Except.ok.inj hquoted
  intro c hc
  obtain ⟨b, -, hc⟩ := List.mem_flatMap.mp hc
  have hlt := b.toNat_lt
  split at hc
  · next hsafe =>
    rw [List.mem_singleton.mp hc]
    exact visible_of_safe hsafe
  · simp only [List.mem_cons, List.not_mem_nil, or_false] at hc
    rcases hc with rfl | rfl | rfl
    · decide
    · exact visible_of_digit (by omega)
    · exact visible_of_digit (Nat.mod_lt _ (by omega))

/-! ### Targets -/

/-- What a target names. -/
inductive Address where
  | script
  | file (namespace_ database bucket path : Str)
  | bucket (namespace_ database bucket : Str)
  | series (namespace_ database series : Str)
  | backup (since : Option ℤ)
  | health
  | ready
  deriving DecidableEq, Repr

/-- Three names, and what stands behind a slash after them. -/
def readNames (text : Str) : Str × Str × Str × Option Str :=
  let (namespace_, _, rest) := partition SLASH text
  let (database, _, rest) := partition SLASH rest
  let (name, more, rest) := partition SLASH rest
  (namespace_, database, name, if more then some rest else none)

/-- An integer, as `int` would read what `str` wrote. -/
def readInt (text : Str) : ℤ :=
  match skip (ofString "-") text with
  | some rest => -(number rest : ℤ)
  | none => number text

def readAddress (where_ : Str) : Option Address :=
  match skip (ofString "/files/") where_, skip (ofString "/series/") where_,
      skip (ofString "/backup?from=") where_ with
  | some text, _, _ =>
      match readNames text with
      | (namespace_, database, bucket, none) => some (.bucket namespace_ database bucket)
      | (namespace_, database, bucket, some quoted) =>
          (unquote quoted).map (.file namespace_ database bucket)
  | none, some text, _ =>
      match readNames text with
      | (namespace_, database, series, none) => some (.series namespace_ database series)
      | _ => none
  | none, none, some text => some (.backup (some (readInt text)))
  | none, none, none =>
      if where_ = ofString "/script" then some .script
      else if where_ = ofString "/backup" then some (.backup none)
      else if where_ = ofString "/health" then some .health
      else if where_ = ofString "/ready" then some .ready
      else none

theorem readInt_str (z : ℤ) : readInt (str z) = z := by
  rw [str]
  split
  · next hneg =>
    rw [readInt, skip_append]
    dsimp only
    rw [number_digits]
    omega
  · next hnonneg =>
    have hnot : ¬ ofString "-" <+: digits z.natAbs := by
      rintro ⟨rest, heq⟩
      have hmem : codePoint 0x2D ∈ digits z.natAbs := heq ▸ List.mem_cons_self
      exact absurd (isDigit_of_mem_digits _ hmem) (by decide)
    rw [readInt, skip_of_not hnot]
    dsimp only
    rw [number_digits]
    omega

theorem ne_slash_of_word {c : CodePoint} (h : IsWord c) : c ≠ SLASH := by
  rintro rfl
  exact absurd h (by decide)

theorem readNames_of_segments {namespace_ database name : Str} (hnamespace : IsSegment namespace_)
    (hdatabase : IsSegment database) (hname : IsSegment name) :
    readNames (namespace_ ++ "/" ++ database ++ "/" ++ name) = (namespace_, database, name, none) ∧
      ∀ rest : Str, readNames (namespace_ ++ "/" ++ database ++ "/" ++ name ++ "/" ++ rest) =
        (namespace_, database, name, some rest) := by
  have hslash : ofString "/" = [SLASH] := rfl
  have hclear : ∀ {segment : Str}, IsSegment segment → ∀ c ∈ segment, c ≠ SLASH := fun h c hc =>
    ne_slash_of_word (h.2 c hc)
  simp only [List.append_assoc, hslash, List.cons_append, List.nil_append]
  refine ⟨?_, fun rest => ?_⟩
  · simp only [readNames, partition_append (hclear hnamespace),
      partition_append (hclear hdatabase), partition_of_notMem (hclear hname)]
    rfl
  · simp only [readNames, partition_append (hclear hnamespace),
      partition_append (hclear hdatabase), partition_append (hclear hname)]
    rfl

/-- The checked names of a path, and the path. -/
theorem namedPath_ok {python : Interpreter} {root : String} {namespace_ database name path : Str}
    (h : namedPath python root namespace_ database name = .ok path) :
    (IsSegment namespace_ ∧ IsSegment database ∧ IsSegment name) ∧
      path = root ++ "/" ++ namespace_ ++ "/" ++ database ++ "/" ++ name := by
  rw [namedPath] at h
  split at h
  · cases h
  · next hfind =>
    have hall := List.find?_eq_none.mp hfind
    simp only [List.mem_cons, List.not_mem_nil, or_false, forall_eq_or_imp, forall_eq,
      decide_eq_true_eq, not_not] at hall
    exact ⟨hall, (Except.ok.inj h).symm⟩

theorem visible_of_namedPath {python : Interpreter} {root : String}
    {namespace_ database name path : Str}
    (h : namedPath python root namespace_ database name = .ok path)
    (hroot : ∀ c ∈ ofString root, Visible c) : ∀ c ∈ path, Visible c := by
  obtain ⟨⟨hnamespace, hdatabase, hname⟩, rfl⟩ := namedPath_ok h
  have hslash : ∀ c ∈ ofString "/", Visible c := forall_mem_of_all (by decide)
  have hsegment : ∀ {segment : Str}, IsSegment segment → ∀ c ∈ segment, Visible c :=
    fun h c hc => visible_of_word (h.2 c hc)
  simp only [List.forall_mem_append]
  exact ⟨⟨⟨⟨⟨⟨hroot, hslash⟩, hsegment hnamespace⟩, hslash⟩, hsegment hdatabase⟩, hslash⟩,
    hsegment hname⟩

theorem readAddress_of_bucketPath {python : Interpreter} {namespace_ database bucket where_ : Str}
    (h : bucketPath python namespace_ database bucket = .ok where_) :
    readAddress where_ = some (.bucket namespace_ database bucket) := by
  obtain ⟨⟨hnamespace, hdatabase, hname⟩, rfl⟩ := namedPath_ok h
  have hnames := (readNames_of_segments hnamespace hdatabase hname).1
  have hroot : ofString "/files" ++ "/" ++ namespace_ ++ "/" ++ database ++ "/" ++ bucket =
      ofString "/files/" ++ (namespace_ ++ "/" ++ database ++ "/" ++ bucket) := by
    simp only [List.append_assoc]
    rfl
  rw [hroot, readAddress, skip_append]
  dsimp only
  rw [hnames]

theorem readAddress_of_filePath {python : Interpreter} {namespace_ database bucket path where_ : Str}
    (h : filePath python namespace_ database bucket path = .ok where_) :
    readAddress where_ = some (.file namespace_ database bucket path) := by
  obtain ⟨root, hbucket, h⟩ := Sequences.bind_eq_ok.mp h
  obtain ⟨quoted, hquoted, h⟩ := Sequences.bind_eq_ok.mp h
  obtain rfl := Except.ok.inj h
  obtain ⟨⟨hnamespace, hdatabase, hname⟩, rfl⟩ := namedPath_ok hbucket
  have hnames := (readNames_of_segments hnamespace hdatabase hname).2 quoted
  have hroot : ofString "/files" ++ "/" ++ namespace_ ++ "/" ++ database ++ "/" ++ bucket ++ "/" ++
        quoted =
      ofString "/files/" ++ (namespace_ ++ "/" ++ database ++ "/" ++ bucket ++ "/" ++ quoted) := by
    simp only [List.append_assoc]
    rfl
  rw [hroot, readAddress, skip_append]
  dsimp only
  rw [hnames]
  dsimp only
  rw [unquote_of_quote hquoted, Option.map_some]

theorem readAddress_of_seriesPath {python : Interpreter} {namespace_ database series where_ : Str}
    (h : seriesPath python namespace_ database series = .ok where_) :
    readAddress where_ = some (.series namespace_ database series) := by
  obtain ⟨⟨hnamespace, hdatabase, hname⟩, rfl⟩ := namedPath_ok h
  have hnames := (readNames_of_segments hnamespace hdatabase hname).1
  have hroot : ofString "/series" ++ "/" ++ namespace_ ++ "/" ++ database ++ "/" ++ series =
      ofString "/series/" ++ (namespace_ ++ "/" ++ database ++ "/" ++ series) := by
    simp only [List.append_assoc]
    rfl
  have hfiles : ¬ ofString "/files/" <+: ofString "/series/" ++
      (namespace_ ++ "/" ++ database ++ "/" ++ series) :=
    (begins_append (List.mem_singleton_self (ofString "/series/")) _).not_other _ (by decide)
  rw [hroot, readAddress, skip_append, skip_of_not hfiles]
  dsimp only
  rw [hnames]

theorem readAddress_backup (position : ℤ) :
    readAddress (ofString "/backup?from=" ++ str position) = some (.backup (some position)) := by
  have hbegins := begins_append (List.mem_singleton_self (ofString "/backup?from=")) (str position)
  rw [readAddress, skip_append, skip_of_not (hbegins.not_other _ (by decide)),
    skip_of_not (hbegins.not_other _ (by decide))]
  dsimp only
  rw [readInt_str]

/-! ### Requests -/

/-- What a request asks for. -/
inductive Operation where
  | script (source : Str)
  | put (namespace_ database bucket path : Str) (content : Bytes)
  | get (namespace_ database bucket path : Str)
  | delete (namespace_ database bucket path : Str)
  | listing (namespace_ database bucket : Str)
  | append (namespace_ database series batch : Str)
  | backup (since : Option ℤ)
  | health
  | ready
  deriving DecidableEq, Repr

/-- What a node makes of a request. -/
def readOperation (r : RouteRequest) : Option Operation := do
  match r.method, ← readAddress r.where_, r.body with
  | "POST", .script, some raw => return .script (← Utf8.decode raw)
  | "PUT", .file namespace_ database bucket path, some content =>
      return .put namespace_ database bucket path content
  | "GET", .file namespace_ database bucket path, none => return .get namespace_ database bucket path
  | "DELETE", .file namespace_ database bucket path, none =>
      return .delete namespace_ database bucket path
  | "GET", .bucket namespace_ database bucket, none => return .listing namespace_ database bucket
  | "POST", .series namespace_ database series, some raw =>
      return .append namespace_ database series (← Utf8.decode raw)
  | "GET", .backup since, none => return .backup since
  | "GET", .health, none => return .health
  | "GET", .ready, none => return .ready
  | _, _, _ => none

/-- What a call is for; a batch is the text it is sent as. -/
def Call.operation (lib : Library) : Call → Option Operation
  | .script source _ => some (.script source)
  | .put namespace_ database bucket path content =>
      some (.put namespace_ database bucket path content)
  | .get namespace_ database bucket path => some (.get namespace_ database bucket path)
  | .delete namespace_ database bucket path => some (.delete namespace_ database bucket path)
  | .listing namespace_ database bucket => some (.listing namespace_ database bucket)
  | .append namespace_ database series events =>
      (Events.batch lib.platform events).toOption.map (.append namespace_ database series)
  | .backup since => some (.backup since)
  | .health => some .health
  | .ready => some .ready
  | .endSession => none

theorem visible_of_filePath {python : Interpreter} {namespace_ database bucket path where_ : Str}
    (h : filePath python namespace_ database bucket path = .ok where_) :
    ∀ c ∈ where_, Visible c := by
  obtain ⟨root, hbucket, h⟩ := Sequences.bind_eq_ok.mp h
  obtain ⟨quoted, hquoted, h⟩ := Sequences.bind_eq_ok.mp h
  obtain rfl := Except.ok.inj h
  have hslash : ∀ c ∈ ofString "/", Visible c := forall_mem_of_all (by decide)
  exact List.forall_mem_append.mpr ⟨List.forall_mem_append.mpr
    ⟨visible_of_namedPath hbucket (forall_mem_of_all (by decide)), hslash⟩, visible_of_quote hquoted⟩

theorem visible_str (z : ℤ) : ∀ c ∈ str z, Visible c := by
  have hdigits : ∀ n, ∀ c ∈ digits n, Visible c := fun n c hc =>
    visible_of_word (.inr (isDigit_of_mem_digits c hc))
  rw [str]
  split
  · exact List.forall_mem_append.mpr ⟨forall_mem_of_all (by decide), hdigits _⟩
  · exact hdigits _

/-- **A request is read back.** -/
theorem readOperation_own (lib : Library) {call : Call} {r : RouteRequest}
    (h : call.own lib = some r) :
    readOperation r = call.operation lib ∧ (call.operation lib).isSome ∧
      ∀ c ∈ r.where_, Visible c := by
  cases call with
  | script source declared =>
      obtain ⟨raw, hraw, h⟩ := Sequences.bind_eq_ok.mp (request_eq_ok h)
      obtain rfl := Except.ok.inj h
      have haddress : readAddress (ofString "/script") = some .script := rfl
      refine ⟨?_, rfl, forall_mem_of_all (P := Visible) (w := ofString "/script") (by decide)⟩
      rw [readOperation, haddress]
      exact congrArg (Option.bind · _) (encodeUtf8_eq_ok hraw)
  | put _ _ _ _ _ | get _ _ _ _ | delete _ _ _ _ =>
      obtain ⟨where_, hwhere, h⟩ := Sequences.bind_eq_ok.mp (request_eq_ok h)
      obtain rfl := Except.ok.inj h
      refine ⟨?_, rfl, visible_of_filePath hwhere⟩
      rw [readOperation, readAddress_of_filePath hwhere]
      rfl
  | listing namespace_ database bucket =>
      obtain ⟨where_, hwhere, h⟩ := Sequences.bind_eq_ok.mp (request_eq_ok h)
      obtain rfl := Except.ok.inj h
      refine ⟨?_, rfl, visible_of_namedPath hwhere (forall_mem_of_all (by decide))⟩
      rw [readOperation, readAddress_of_bucketPath hwhere]
      rfl
  | append namespace_ database series events =>
      obtain ⟨batch, hbatch, h⟩ := Sequences.bind_eq_ok.mp (request_eq_ok h)
      obtain ⟨raw, hraw, h⟩ := Sequences.bind_eq_ok.mp h
      obtain ⟨where_, hwhere, h⟩ := Sequences.bind_eq_ok.mp h
      obtain rfl := Except.ok.inj h
      have hevents : Events.batch lib.platform events = .ok batch := by
        cases hall : Events.batch lib.platform events with
        | error why =>
            rw [hall] at hbatch
            cases hbatch
        | ok text =>
            rw [hall] at hbatch
            exact congrArg Except.ok (Except.ok.inj hbatch)
      rw [Call.operation, hevents]
      refine ⟨?_, rfl, visible_of_namedPath hwhere (forall_mem_of_all (by decide))⟩
      rw [readOperation, readAddress_of_seriesPath hwhere]
      exact congrArg (Option.bind · _) (encodeUtf8_eq_ok hraw)
  | backup since =>
      obtain rfl := Option.some.inj h
      cases since with
      | none => exact ⟨rfl, rfl, forall_mem_of_all (P := Visible) (w := ofString "/backup") (by decide)⟩
      | some position =>
          refine ⟨?_, rfl, List.forall_mem_append.mpr
            ⟨forall_mem_of_all (by decide), visible_str position⟩⟩
          rw [readOperation]
          dsimp only
          rw [readAddress_backup]
          rfl
  | health =>
      obtain rfl := Option.some.inj h
      exact ⟨rfl, rfl, forall_mem_of_all (P := Visible) (w := ofString "/health") (by decide)⟩
  | ready =>
      obtain rfl := Option.some.inj h
      exact ⟨rfl, rfl, forall_mem_of_all (P := Visible) (w := ofString "/ready") (by decide)⟩
  | endSession => cases h

/-- The request an operation is asked for in. -/
def Operation.request (python : Interpreter) : Operation → Except HttpRaised RouteRequest
  | .script source => do return ⟨"POST", "/script", some (← encodeUtf8 source), some "text/plain"⟩
  | .put namespace_ database bucket path content => do
      return ⟨"PUT", ← filePath python namespace_ database bucket path, some content,
        some "application/octet-stream"⟩
  | .get namespace_ database bucket path => do
      return ⟨"GET", ← filePath python namespace_ database bucket path, none, none⟩
  | .delete namespace_ database bucket path => do
      return ⟨"DELETE", ← filePath python namespace_ database bucket path, none, none⟩
  | .listing namespace_ database bucket => do
      return ⟨"GET", ← bucketPath python namespace_ database bucket, none, none⟩
  | .append namespace_ database series batch => do
      let body ← encodeUtf8 batch
      return ⟨"POST", ← seriesPath python namespace_ database series, some body, some "text/plain"⟩
  | .backup none => .ok ⟨"GET", "/backup", none, none⟩
  | .backup (some position) => .ok ⟨"GET", "/backup?from=" ++ str position, none, none⟩
  | .health => .ok ⟨"GET", "/health", none, none⟩
  | .ready => .ok ⟨"GET", "/ready", none, none⟩

theorem request_of_own (lib : Library) {call : Call} {r : RouteRequest}
    (h : call.own lib = some r) :
    ∃ operation, call.operation lib = some operation ∧
      operation.request lib.toInterpreter = .ok r := by
  cases call with
  | append namespace_ database series events =>
      have hr := request_eq_ok h
      obtain ⟨batch, hbatch, h⟩ := Sequences.bind_eq_ok.mp hr
      refine ⟨.append namespace_ database series batch, ?_, h⟩
      cases hall : Events.batch lib.platform events with
      | error why =>
          rw [hall] at hbatch
          cases hbatch
      | ok text =>
          rw [hall] at hbatch
          obtain rfl := Except.ok.inj hbatch
          rw [Call.operation, hall]
          rfl
  | backup since =>
      obtain rfl := Option.some.inj h
      refine ⟨.backup since, rfl, ?_⟩
      cases since <;> rfl
  | health | ready =>
      obtain rfl := Option.some.inj h
      exact ⟨_, rfl, rfl⟩
  | endSession => cases h
  | script _ _ | put _ _ _ _ _ | get _ _ _ _ | delete _ _ _ _ | listing _ _ _ =>
      exact ⟨_, rfl, request_eq_ok h⟩

/-- **An HTTP request says one thing.** The request a call makes reads back as the call it is of;
its target has visible characters alone, so that it ends no line; and two calls make one request
exactly when they are for the same thing. -/
theorem requests_are_read_back (lib : Library) {call : Call} {r : RouteRequest}
    (h : call.own lib = some r) :
    (∃ operation, call.operation lib = some operation ∧ readOperation r = some operation) ∧
      (∀ c ∈ r.where_, Visible c) ∧
      ∀ (call' : Call) (r' : RouteRequest), call'.own lib = some r' →
        (r' = r ↔ call'.operation lib = call.operation lib) := by
  obtain ⟨operation, hoperation, hrequest⟩ := request_of_own lib h
  obtain ⟨hread, -, hvisible⟩ := readOperation_own lib h
  refine ⟨⟨operation, hoperation, hread.trans hoperation⟩, hvisible, fun call' r' h' => ?_⟩
  constructor
  · rintro rfl
    rw [← (readOperation_own lib h').1, hread]
  · intro hsame
    obtain ⟨operation', hoperation', hrequest'⟩ := request_of_own lib h'
    rw [hoperation', hoperation, Option.some_inj] at hsame
    rw [hsame, hrequest] at hrequest'
    exact (Except.ok.inj hrequest').symm

/-- A file whose name has a space and a percent sign. -/
theorem get_is_read_back :
    readOperation ⟨"GET", ofString "/files/n/d/b/a%20100%25", none, none⟩ =
      some (.get (ofString "n") (ofString "d") (ofString "b") (ofString "a 100%")) := by
  have hown : (Call.get (ofString "n") (ofString "d") (ofString "b") (ofString "a 100%")).own
      tokenLibrary = some ⟨"GET", ofString "/files/n/d/b/a%20100%25", none, none⟩ := by
    have hquoted : quote (ofString "a 100%") = .ok (ofString "a%20100%25") := rfl
    have hnames : ∀ segment ∈ [ofString "n", ofString "d", ofString "b"], IsSegment segment := by
      simp only [List.mem_cons, List.not_mem_nil, or_false, forall_eq_or_imp, forall_eq]
      exact ⟨⟨by decide, forall_mem_of_all (by decide)⟩,
        ⟨by decide, forall_mem_of_all (by decide)⟩, ⟨by decide, forall_mem_of_all (by decide)⟩⟩
    have hbucket : bucketPath tokenLibrary.toInterpreter (ofString "n") (ofString "d")
        (ofString "b") = .ok (ofString "/files/n/d/b") := by
      have hfind := List.find?_eq_none.mpr fun segment hsegment =>
        decide_eq_false (not_not.mpr (hnames segment hsegment)) ▸ Bool.false_ne_true
      rw [bucketPath, namedPath, hfind]
      rfl
    rw [Call.own, get, filePath, hbucket, hquoted]
    rfl
  obtain ⟨⟨operation, hoperation, hread⟩, -⟩ := requests_are_read_back tokenLibrary hown
  exact hread.trans hoperation.symm

/-! ### Logins -/

def PAD : CodePoint := codePoint 0x3D

/-- The value of a digit of base 64. -/
def base64Value (c : CodePoint) : Option ℕ :=
  if 0x41 ≤ c.val ∧ c.val ≤ 0x5A then some (c.val - 0x41)
  else if 0x61 ≤ c.val ∧ c.val ≤ 0x7A then some (c.val - 0x47)
  else if 0x30 ≤ c.val ∧ c.val ≤ 0x39 then some (c.val + 4)
  else if c.val = 0x2B then some 62
  else if c.val = 0x2F then some 63
  else none

/-- Three bytes for four digits; the last four may be padded. -/
def unbase64 : Str → Option Bytes
  | [] => some []
  | a :: b :: c :: d :: rest => do
      let a ← base64Value a
      let b ← base64Value b
      let first := UInt8.ofNat (4 * a + b / 16)
      if c = PAD ∧ d = PAD ∧ rest = [] then return [first]
      else do
        let c ← base64Value c
        let second := UInt8.ofNat (16 * (b % 16) + c / 4)
        if d = PAD ∧ rest = [] then return [first, second]
        else do
          let d ← base64Value d
          let raw ← unbase64 rest
          return first :: second :: UInt8.ofNat (64 * (c % 4) + d) :: raw
  | _ => none

theorem val_base64Digit {d : ℕ} (h : d < 64) : (base64Digit d).val =
    if d < 26 then 0x41 + d else if d < 52 then 0x47 + d
    else if d < 62 then d - 4 else if d = 62 then 0x2B else 0x2F := by
  rw [base64Digit, val_codePoint]
  split_ifs <;> omega

theorem base64Value_digit {d : ℕ} (h : d < 64) : base64Value (base64Digit d) = some d := by
  rw [base64Value, val_base64Digit h]
  split_ifs <;> first | omega | (congr 1; omega)

theorem base64Digit_ne_pad {d : ℕ} (h : d < 64) : base64Digit d ≠ PAD := by
  intro heq
  have hval := congrArg Fin.val heq
  rw [val_base64Digit h, PAD, val_codePoint (by omega)] at hval
  split_ifs at hval <;> omega

/-- **What was written in base 64 is read back.** -/
theorem unbase64_base64 (raw : Bytes) : unbase64 (base64 raw) = some raw := by
  induction raw using base64.induct with
  | case1 a b c rest ih =>
      have ha := a.toNat_lt
      have hb := b.toNat_lt
      have hc := c.toNat_lt
      rw [base64, unbase64, base64Value_digit (by omega), base64Value_digit (by omega)]
      dsimp only [Option.bind_eq_bind, Option.bind_some]
      rw [if_neg fun h => base64Digit_ne_pad (by omega) h.1, base64Value_digit (by omega)]
      dsimp only [Option.bind_some]
      rw [if_neg fun h => base64Digit_ne_pad (by omega) h.1, base64Value_digit (by omega), ih]
      dsimp only [Option.bind_some]
      rw [ofNat_eq_of_toNat (b := a) (by omega), ofNat_eq_of_toNat (b := b) (by omega),
        ofNat_eq_of_toNat (b := c) (by omega)]
      rfl
  | case2 a b =>
      have ha := a.toNat_lt
      have hb := b.toNat_lt
      rw [base64, unbase64, base64Value_digit (by omega), base64Value_digit (by omega)]
      dsimp only [Option.bind_eq_bind, Option.bind_some]
      rw [if_neg fun h => base64Digit_ne_pad (by omega) h.1, base64Value_digit (by omega)]
      dsimp only [Option.bind_some]
      rw [if_pos ⟨rfl, rfl⟩, ofNat_eq_of_toNat (b := a) (by omega),
        ofNat_eq_of_toNat (b := b) (by omega)]
      rfl
  | case3 a =>
      have ha := a.toNat_lt
      rw [base64, unbase64, base64Value_digit (by omega), base64Value_digit (by omega)]
      dsimp only [Option.bind_eq_bind, Option.bind_some]
      rw [if_pos ⟨rfl, rfl, rfl⟩, ofNat_eq_of_toNat (b := a) (by omega)]
      rfl
  | case4 => rfl

/-- The text of the login in a header. -/
def readBasic (header : Str) : Option Str :=
  ((skip (ofString "Basic ") header).bind unbase64).bind Utf8.decode

def COLON : CodePoint := codePoint 0x3A

/-- The user and the password, parted at the first colon. -/
def readLogin (header : Str) : Option (Str × Str) :=
  (readBasic header).map fun text => ((partition COLON text).1, (partition COLON text).2.2)

theorem readBasic_basic {user header : Str} {password : Option Str}
    (h : basic user password = .ok header) :
    readBasic header = some (user ++ ":" ++ password.getD []) := by
  obtain ⟨raw, hraw, h⟩ := Sequences.bind_eq_ok.mp h
  obtain rfl := Except.ok.inj h
  rw [readBasic, skip_append, Option.bind_some, unbase64_base64, Option.bind_some]
  exact encodeUtf8_eq_ok hraw

/-- **A login is read back.** A header reads back as the user and the password with a colon
between them. Where the user has none of its own they are told apart, and two logins make one
header exactly when these texts are the same. -/
theorem logins_are_read_back {user header : Str} {password : Option Str}
    (h : basic user password = .ok header) :
    readBasic header = some (user ++ ":" ++ password.getD []) ∧
      ((∀ c ∈ user, c ≠ COLON) → readLogin header = some (user, password.getD [])) ∧
      ∀ (user' header' : Str) (password' : Option Str), basic user' password' = .ok header' →
        (header' = header ↔
          user' ++ ":" ++ password'.getD [] = user ++ ":" ++ password.getD []) := by
  have hread := readBasic_basic h
  refine ⟨hread, fun huser => ?_, fun user' header' password' h' => ⟨?_, fun hsame => ?_⟩⟩
  · have hcolon : user ++ ":" ++ password.getD [] = user ++ COLON :: password.getD [] := by
      rw [List.append_assoc]
      rfl
    rw [readLogin, hread, Option.map_some, hcolon, partition_append huser]
  · rintro rfl
    exact Option.some.inj ((readBasic_basic h').symm.trans hread)
  · rw [basic, hsame, ← basic, h] at h'
    exact (Except.ok.inj h').symm

theorem login_is_read_back :
    readLogin (ofString "Basic YWRhOjpw") = some (ofString "ada", ofString ":p") := by
  have hbasic : basic (ofString "ada") (some (ofString ":p")) =
      .ok (ofString "Basic YWRhOjpw") := rfl
  exact (logins_are_read_back hbasic).2.1 (forall_mem_of_all (by decide))

end Http

end TessariDB
