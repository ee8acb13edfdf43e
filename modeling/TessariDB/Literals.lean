import TessariDB.Text

/-!
# A Language of Literals

Words, words and quoted texts behind a tag, arrays, and objects with quoted names. In quotes a
backslash takes the next character as it is, and an unescaped quote ends the text.

## Main results

* `scan_quoted`: a quoted text ends where it was ended, and is read back.
* `Literal.spelled_append_inj`: literals are read in one way only, whatever follows them.
-/

namespace Literals

open Utf8 Text

/-! ### Quotes -/

def QUOTE : CodePoint := codePoint 0x27

def BACKSLASH : CodePoint := codePoint 0x5C

/-- A character between quotes. -/
def escape (c : CodePoint) : Str := if c = BACKSLASH ∨ c = QUOTE then [BACKSLASH, c] else [c]

/-- A text in quotes. -/
def quoted (s : Str) : Str := QUOTE :: (s.flatMap escape ++ [QUOTE])

/-- Read what follows an opening quote: the text, and what stands behind the closing one. After a
backslash the next character is taken as it is. -/
def scan (escaped : Bool) : Str → Option (Str × Str)
  | [] => none
  | c :: rest =>
      if escaped then (scan false rest).map fun read => (c :: read.1, read.2)
      else if c = QUOTE then some ([], rest)
      else if c = BACKSLASH then scan true rest
      else (scan false rest).map fun read => (c :: read.1, read.2)

/-- **A quoted text ends where it was ended, and is read back.** -/
theorem scan_quoted (s r : Str) : scan false (s.flatMap escape ++ QUOTE :: r) = some (s, r) := by
  induction s with
  | nil => simp [scan]
  | cons c s ih =>
      have hne : BACKSLASH ≠ QUOTE := by decide
      rw [List.flatMap_cons, List.append_assoc, escape]
      split
      · simp only [List.cons_append, List.nil_append, scan, if_neg hne, if_true, ih,
          Bool.false_eq_true, if_false, Option.map_some]
      · next hplain =>
        rw [not_or] at hplain
        simp only [List.cons_append, List.nil_append, scan, if_neg hplain.1, if_neg hplain.2, ih,
          Bool.false_eq_true, if_false, Option.map_some]

theorem quoted_append_inj {s t r r' : Str} (h : quoted s ++ r = quoted t ++ r') :
    s = t ∧ r = r' := by
  rw [quoted, quoted, List.cons_append, List.cons_append, List.append_assoc, List.append_assoc,
    List.singleton_append, List.singleton_append] at h
  have hscan := congrArg (scan false) (List.cons.inj h).2
  rw [scan_quoted, scan_quoted] at hscan
  cases hscan
  exact ⟨rfl, rfl⟩

/-! ### Literals -/

/-- A character of a word. -/
def IsBare (c : CodePoint) : Prop := IsWord c ∨ c.val = 0x2B ∨ c.val = 0x2D ∨ c.val = 0x2E

instance (c : CodePoint) : Decidable (IsBare c) := instDecidableOr

inductive Literal where
  | word (w : Str)
  | tagged (tag w : Str)
  | text (s : Str)
  | taggedText (tag s : Str)
  | array (items : List Literal)
  | object (fields : List (Str × Literal))

namespace Literal

mutual

/-- A literal, as it is written. -/
def spelled : Literal → Str
  | .word w => w
  | .tagged tag w => tag ++ " " ++ w
  | .text s => quoted s
  | .taggedText tag s => tag ++ " " ++ quoted s
  | .array items => "[" ++ join ", " (texts items) ++ "]"
  | .object fields =>
      match fieldTexts fields with
      | [] => "\x7b\x7d"
      | parts => "\x7b " ++ join ", " parts ++ " \x7d"

def texts : List Literal → List Str
  | [] => []
  | l :: ls => l.spelled :: texts ls

def fieldTexts : List (Str × Literal) → List Str
  | [] => []
  | (name, l) :: fields => (quoted name ++ ": " ++ l.spelled) :: fieldTexts fields

end

mutual

/-- The words of a literal are words. -/
def Ok : Literal → Prop
  | .word w => w ≠ [] ∧ ∀ c ∈ w, IsBare c
  | .tagged tag w => (tag ≠ [] ∧ ∀ c ∈ tag, IsBare c) ∧ w ≠ [] ∧ ∀ c ∈ w, IsBare c
  | .text _ => True
  | .taggedText tag _ => tag ≠ [] ∧ ∀ c ∈ tag, IsBare c
  | .array items => OkItems items
  | .object fields => OkFields fields

def OkItems : List Literal → Prop
  | [] => True
  | l :: ls => l.Ok ∧ OkItems ls

def OkFields : List (Str × Literal) → Prop
  | [] => True
  | (_, l) :: fields => l.Ok ∧ OkFields fields

end

theorem texts_eq (ls : List Literal) : texts ls = ls.map spelled := by
  induction ls with
  | nil => rfl
  | cons l ls ih => rw [texts, ih, List.map_cons]

/-- One field of an object. -/
def fieldText (field : Str × Literal) : Str := quoted field.1 ++ ": " ++ field.2.spelled

theorem fieldTexts_eq (fields : List (Str × Literal)) : fieldTexts fields = fields.map fieldText := by
  induction fields with
  | nil => rfl
  | cons field fields ih => rw [fieldTexts, ih, List.map_cons, fieldText]

theorem okItems_iff {ls : List Literal} : OkItems ls ↔ ∀ l ∈ ls, l.Ok := by
  induction ls with
  | nil => simp [OkItems]
  | cons l ls ih => rw [OkItems, ih, List.forall_mem_cons]

theorem okFields_iff {fields : List (Str × Literal)} :
    OkFields fields ↔ ∀ field ∈ fields, field.2.Ok := by
  induction fields with
  | nil => simp [OkFields]
  | cons field fields ih => rw [OkFields, ih, List.forall_mem_cons]

/-- The literals directly inside a literal. -/
def children : Literal → List Literal
  | .array items => items
  | .object fields => fields.map Prod.snd
  | _ => []

/-- **Induction over nested literals.** -/
theorem induction {P : Literal → Prop} (step : ∀ l : Literal, (∀ m ∈ l.children, P m) → P l)
    (l : Literal) : P l :=
  @Literal.rec P (fun ls => ∀ l ∈ ls, P l) (fun fields => ∀ l ∈ fields.map Prod.snd, P l)
    (fun field => P field.2)
    (fun _ => step _ (List.forall_mem_nil _)) (fun _ _ => step _ (List.forall_mem_nil _))
    (fun _ => step _ (List.forall_mem_nil _)) (fun _ _ => step _ (List.forall_mem_nil _))
    (fun _ ih => step _ ih) (fun _ ih => step _ ih)
    (List.forall_mem_nil _) (fun _ _ ih ih' => List.forall_mem_cons.mpr ⟨ih, ih'⟩)
    (List.forall_mem_nil _) (fun _ _ ih ih' => List.forall_mem_cons.mpr ⟨ih, ih'⟩)
    (fun _ _ ih => ih) l

/-! ### What follows a literal -/

/-- A text that goes on with no word, and with nothing that would follow a tag. -/
def Ends : Str → Prop
  | [] => True
  | c :: rest => ¬ IsBare c ∧ (c.val = 0x20 → ∀ d ∈ rest.head?, ¬ IsBare d ∧ d ≠ QUOTE)

/-- What a literal looks like from its front. -/
inductive Look where
  | word
  | tagged
  | text
  | taggedText
  | array
  | object
  deriving DecidableEq

def look (l : Literal) : Look :=
  match l with
  | .word _ => .word
  | .tagged _ _ => .tagged
  | .text _ => .text
  | .taggedText _ _ => .taggedText
  | .array _ => .array
  | .object _ => .object

/-- The look of a word, by what follows it. -/
def lookBehind : Str → Look
  | c :: d :: _ =>
      if c.val = 0x20 then
        if IsBare d then .tagged else if d = QUOTE then .taggedText else .word
      else .word
  | _ => .word

/-- The look of a text. -/
def lookOf (s : Str) : Look :=
  match s with
  | [] => .word
  | c :: _ =>
      if c = QUOTE then .text
      else if c.val = 0x5B then .array
      else if c.val = 0x7B then .object
      else lookBehind (s.dropWhile fun c => decide (IsBare c))

theorem not_bare {c : CodePoint} (h : IsBare c) :
    c ≠ QUOTE ∧ c.val ≠ 0x5B ∧ c.val ≠ 0x5D ∧ c.val ≠ 0x7B := by
  have hquote : ¬ IsBare QUOTE := by decide
  refine ⟨fun hc => hquote (hc ▸ h), ?_⟩
  rw [IsBare, IsWord, IsLetter, IsDigit] at h
  omega

theorem Ends.head {r : Str} (h : Ends r) : ∀ c ∈ r.head?, ¬ IsBare c := by
  cases r with
  | nil => simp
  | cons c r =>
      rintro d hd
      obtain rfl : c = d := Option.some.inj hd
      exact h.1

theorem Ends.lookBehind {r : Str} (h : Ends r) : lookBehind r = .word := by
  match r, h with
  | [], _ => rfl
  | [_], _ => rfl
  | c :: d :: rest, h =>
      rw [Literal.lookBehind]
      split
      · next hspace =>
        obtain ⟨hbare, hquote⟩ := h.2 hspace d rfl
        rw [if_neg hbare, if_neg hquote]
      · rfl

theorem lookOf_bare {w r : Str} (hne : w ≠ []) (hw : ∀ c ∈ w, IsBare c)
    (hr : ∀ c ∈ r.head?, ¬ IsBare c) : lookOf (w ++ r) = lookBehind r := by
  obtain ⟨c, w, rfl⟩ := List.exists_cons_of_ne_nil hne
  obtain ⟨hquote, hbracket, -, hbrace⟩ := not_bare (hw c List.mem_cons_self)
  rw [List.cons_append, lookOf, if_neg hquote, if_neg hbracket, if_neg hbrace, ← List.cons_append,
    dropWhile_run hw hr]

theorem space_not_bare (s : Str) : ∀ c ∈ (ofString " " ++ s).head?, ¬ IsBare c := by
  rintro c hc
  obtain rfl : codePoint 0x20 = c := Option.some.inj hc
  decide

/-- The look of a literal is that of its text. -/
theorem lookOf_spelled {l : Literal} (hl : l.Ok) {r : Str} (hr : Ends r) :
    lookOf (l.spelled ++ r) = l.look := by
  cases l with
  | word w =>
      obtain ⟨hne, hw⟩ := hl
      rw [spelled, lookOf_bare hne hw hr.head, hr.lookBehind]
      rfl
  | tagged tag w =>
      obtain ⟨⟨hne, htag⟩, hne', hw⟩ := hl
      obtain ⟨c, w, rfl⟩ := List.exists_cons_of_ne_nil hne'
      rw [spelled, List.append_assoc, List.append_assoc, lookOf_bare hne htag (space_not_bare _)]
      exact if_pos (hw c List.mem_cons_self)
  | text s => rfl
  | taggedText tag s =>
      obtain ⟨hne, htag⟩ := hl
      rw [spelled, List.append_assoc, List.append_assoc, lookOf_bare hne htag (space_not_bare _)]
      rfl
  | array items => rfl
  | object fields =>
      rw [spelled]
      cases fieldTexts fields with
      | nil => rfl
      | cons part parts => rfl

/-! ### Lists of parts -/

section Parts

variable {α : Type}

/-- The parts behind the first, and what closes the list. -/
def tail (part : α → Str) (closing : Str) : List α → Str
  | [] => closing
  | a :: as => ", " ++ (part a ++ tail part closing as)

theorem join_append (part : α → Str) (closing : Str) (a : α) (as : List α) :
    join ", " ((a :: as).map part) ++ closing = part a ++ tail part closing as := by
  induction as generalizing a with
  | nil => rfl
  | cons b as ih =>
      rw [List.map_cons, List.map_cons, join_cons_cons, ← List.map_cons, List.append_assoc, ih,
        List.append_assoc, tail]

/-- A text that closes a list, and nothing else. -/
structure Closes (closing : Str) : Prop where
  ends : ∀ r, Ends (closing ++ r)
  ne : ∀ r s, closing ++ r ≠ ", " ++ s

theorem ends_tail {part : α → Str} {closing : Str} (hclosing : Closes closing) (as : List α)
    (r : Str) : Ends (tail part closing as ++ r) := by
  cases as with
  | nil => exact hclosing.ends r
  | cons a as => exact ⟨by decide, fun h => absurd h (by decide)⟩

/-- A list of parts is read in one way only, if each of its parts is. -/
theorem tail_append_inj {part : α → Str} {closing : Str} (hclosing : Closes closing)
    {as bs : List α} (hpart : ∀ a ∈ as, ∀ b ∈ bs, ∀ r r', Ends r → Ends r' →
      part a ++ r = part b ++ r' → a = b ∧ r = r') {r r' : Str}
    (h : tail part closing as ++ r = tail part closing bs ++ r') : as = bs ∧ r = r' := by
  induction as generalizing bs with
  | nil =>
      cases bs with
      | nil => exact ⟨rfl, List.append_cancel_left h⟩
      | cons b bs =>
          rw [tail, tail, List.append_assoc] at h
          exact absurd h (hclosing.ne _ _)
  | cons a as ih =>
      cases bs with
      | nil =>
          rw [tail, tail, List.append_assoc] at h
          exact absurd h.symm (hclosing.ne _ _)
      | cons b bs =>
          rw [tail, tail, List.append_assoc, List.append_assoc, List.append_assoc,
            List.append_assoc] at h
          obtain ⟨rfl, hrest⟩ := hpart a List.mem_cons_self b List.mem_cons_self _ _
            (ends_tail hclosing as r) (ends_tail hclosing bs r') (List.append_cancel_left h)
          obtain ⟨rfl, rfl⟩ := ih (fun a ha b hb => hpart a (List.mem_cons_of_mem _ ha) b
            (List.mem_cons_of_mem _ hb)) hrest
          exact ⟨rfl, rfl⟩

theorem joined_append_inj {part : α → Str} {closing : Str} (hclosing : Closes closing)
    {a b : α} {as bs : List α} (hpart : ∀ x ∈ a :: as, ∀ y ∈ b :: bs, ∀ r r', Ends r → Ends r' →
      part x ++ r = part y ++ r' → x = y ∧ r = r') {r r' : Str}
    (h : join ", " ((a :: as).map part) ++ closing ++ r =
      join ", " ((b :: bs).map part) ++ closing ++ r') : a :: as = b :: bs ∧ r = r' := by
  rw [join_append, join_append, List.append_assoc, List.append_assoc] at h
  obtain ⟨rfl, hrest⟩ := hpart a List.mem_cons_self b List.mem_cons_self _ _
    (ends_tail hclosing as r) (ends_tail hclosing bs r') h
  obtain ⟨rfl, rfl⟩ := tail_append_inj hclosing (fun x hx y hy =>
    hpart x (List.mem_cons_of_mem _ hx) y (List.mem_cons_of_mem _ hy)) hrest
  exact ⟨rfl, rfl⟩

theorem closes_bracket : Closes "]" :=
  ⟨fun _ => ⟨by decide, fun h => absurd h (by decide)⟩, fun _ _ h =>
    absurd (List.cons.inj h).1 (by decide)⟩

theorem closes_brace : Closes " \x7d" :=
  ⟨fun _ => ⟨by decide, fun _ d hd => by
      obtain rfl : codePoint 0x7D = d := Option.some.inj hd
      exact ⟨by decide, by decide⟩⟩, fun _ _ h =>
    absurd (List.cons.inj h).1 (by decide)⟩

end Parts

/-! ### Unique reading -/

/-- No literal begins as a list ends. -/
theorem spelled_ne_bracket {l : Literal} (hl : l.Ok) (r s : Str) :
    ofString "]" ++ r ≠ l.spelled ++ s := by
  have hword : ∀ w t : Str, w ≠ [] → (∀ c ∈ w, IsBare c) → ofString "]" ++ r ≠ w ++ t := by
    intro w t hne hw h
    obtain ⟨c, w, rfl⟩ := List.exists_cons_of_ne_nil hne
    have hc : codePoint 0x5D = c := (List.cons.inj h).1
    exact (not_bare (hw c List.mem_cons_self)).2.2.1 (hc ▸ by decide)
  cases l with
  | word w => exact hword w s hl.1 hl.2
  | tagged tag w =>
      rw [spelled, List.append_assoc, List.append_assoc]
      exact hword tag _ hl.1.1 hl.1.2
  | text t => exact fun h => absurd (List.cons.inj h).1 (by decide)
  | taggedText tag t =>
      rw [spelled, List.append_assoc, List.append_assoc]
      exact hword tag _ hl.1 hl.2
  | array items => exact fun h => absurd (List.cons.inj h).1 (by decide)
  | object fields =>
      rw [spelled]
      cases fieldTexts fields with
      | nil => exact fun h => absurd (List.cons.inj h).1 (by decide)
      | cons part parts => exact fun h => absurd (List.cons.inj h).1 (by decide)

theorem items_append_inj {ls ms : List Literal} (hms : ∀ m ∈ ms, m.Ok) (hls : ∀ l ∈ ls, l.Ok)
    (hpart : ∀ l ∈ ls, ∀ m ∈ ms, ∀ r r', Ends r → Ends r' →
      l.spelled ++ r = m.spelled ++ r' → l = m ∧ r = r') {r r' : Str}
    (h : join ", " (ls.map spelled) ++ "]" ++ r = join ", " (ms.map spelled) ++ "]" ++ r') :
    ls = ms ∧ r = r' := by
  cases ls with
  | nil =>
      cases ms with
      | nil => exact ⟨rfl, List.append_cancel_left h⟩
      | cons m ms =>
          rw [join_append, List.append_assoc m.spelled] at h
          exact absurd h (spelled_ne_bracket (hms m List.mem_cons_self) _ _)
  | cons l ls =>
      cases ms with
      | nil =>
          rw [join_append, List.append_assoc] at h
          exact absurd h.symm (spelled_ne_bracket (hls l List.mem_cons_self) _ _)
      | cons m ms => exact joined_append_inj closes_bracket hpart h

theorem spelled_object_cons (field : Str × Literal) (fields : List (Str × Literal)) :
    (object (field :: fields)).spelled =
      "\x7b " ++ (join ", " ((field :: fields).map fieldText) ++ " \x7d") := by
  rw [spelled, fieldTexts_eq, ← List.append_assoc]
  rfl

/-- A field is read in one way only, if what it holds is. -/
theorem fieldText_append_inj {field other : Str × Literal} {r r' : Str}
    (hpart : field.2.spelled ++ r = other.2.spelled ++ r' → field.2 = other.2 ∧ r = r')
    (h : fieldText field ++ r = fieldText other ++ r') : field = other ∧ r = r' := by
  rw [fieldText, fieldText, List.append_assoc, List.append_assoc, List.append_assoc,
    List.append_assoc] at h
  obtain ⟨hname, hrest⟩ := quoted_append_inj h
  obtain ⟨hheld, rfl⟩ := hpart (List.append_cancel_left hrest)
  exact ⟨Prod.ext hname hheld, rfl⟩

/-- **A literal is read in one way only**, whatever follows it. -/
theorem spelled_append_inj (l : Literal) : ∀ {m : Literal} {r r' : Str}, l.Ok → m.Ok → Ends r →
    Ends r' → l.spelled ++ r = m.spelled ++ r' → l = m ∧ r = r' := by
  induction l using Literal.induction with
  | step l ih =>
      intro m r r' hl hm hr hr' h
      have hlook : l.look = m.look := by
        rw [← lookOf_spelled hl hr, h, lookOf_spelled hm hr']
      cases l with
      | word w =>
          cases m with
          | word w' =>
              obtain ⟨rfl, rfl⟩ := run_append_inj hl.2 hm.2 hr.head hr'.head h
              exact ⟨rfl, rfl⟩
          | _ => cases hlook
      | tagged tag w =>
          cases m with
          | tagged tag' w' =>
              rw [spelled, spelled, List.append_assoc, List.append_assoc, List.append_assoc,
                List.append_assoc] at h
              obtain ⟨rfl, hrest⟩ := run_append_inj hl.1.2 hm.1.2 (space_not_bare _) (space_not_bare _) h
              obtain ⟨rfl, rfl⟩ := run_append_inj hl.2.2 hm.2.2 hr.head hr'.head
                (List.append_cancel_left hrest)
              exact ⟨rfl, rfl⟩
          | _ => cases hlook
      | text s =>
          cases m with
          | text s' =>
              obtain ⟨rfl, rfl⟩ := quoted_append_inj h
              exact ⟨rfl, rfl⟩
          | _ => cases hlook
      | taggedText tag s =>
          cases m with
          | taggedText tag' s' =>
              rw [spelled, spelled, List.append_assoc, List.append_assoc, List.append_assoc,
                List.append_assoc] at h
              obtain ⟨rfl, hrest⟩ := run_append_inj hl.2 hm.2 (space_not_bare _) (space_not_bare _) h
              obtain ⟨rfl, rfl⟩ := quoted_append_inj (List.append_cancel_left hrest)
              exact ⟨rfl, rfl⟩
          | _ => cases hlook
      | array items =>
          cases m with
          | array items' =>
              rw [spelled, spelled, texts_eq, texts_eq, List.append_assoc, List.append_assoc,
                List.append_assoc, List.append_assoc] at h
              have hitems := List.append_cancel_left h
              rw [← List.append_assoc, ← List.append_assoc] at hitems
              rw [Ok, okItems_iff] at hl hm
              obtain ⟨rfl, rfl⟩ := items_append_inj hm hl (fun l hmem m hmem' r r' hr hr' =>
                ih l hmem (hl l hmem) (hm m hmem') hr hr') hitems
              exact ⟨rfl, rfl⟩
          | _ => cases hlook
      | object fields =>
          cases m with
          | object fields' =>
              rw [Ok, okFields_iff] at hl hm
              have hpart : ∀ field ∈ fields, ∀ other ∈ fields', ∀ r r', Ends r → Ends r' →
                  fieldText field ++ r = fieldText other ++ r' → field = other ∧ r = r' :=
                fun field hmem other hmem' r r' hr hr' => fieldText_append_inj
                  (ih field.2 (List.mem_map_of_mem hmem) (hl field hmem) (hm other hmem') hr hr')
              cases fields with
              | nil =>
                  cases fields' with
                  | nil => exact ⟨rfl, List.append_cancel_left h⟩
                  | cons other fields' =>
                      exact absurd (List.cons.inj (List.cons.inj h).2).1 (by decide)
              | cons field fields =>
                  cases fields' with
                  | nil => exact absurd (List.cons.inj (List.cons.inj h).2).1 (by decide)
                  | cons other fields' =>
                      rw [spelled_object_cons, spelled_object_cons,
                        List.append_assoc (ofString "\x7b "),
                        List.append_assoc (ofString "\x7b ")] at h
                      obtain ⟨heq, rfl⟩ := joined_append_inj closes_brace hpart
                        (List.append_cancel_left h)
                      exact ⟨congrArg Literal.object heq, rfl⟩
          | _ => cases hlook

end Literal

end Literals
