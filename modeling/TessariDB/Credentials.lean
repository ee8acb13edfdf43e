import Mathlib.Algebra.Order.BigOperators.Group.List
import Mathlib.Data.ENat.Basic
import TessariDB.Session

/-!
# Credentials

A connection opened with a user owes its credentials until a frame presents them. The frames on
its sockets tell who was presented where: the first frame is to carry the credentials and no
later one is.

The flag that remembers the debt is cleared while a body is being built, before its parameters
are encoded and before its length is known. A call is `Fits` where this makes no difference:
nothing is owed, or the call is refused before the flag is touched, or its frame really goes
out. The size of a body is a sum of the sizes of its parts, `⊤` for a text or a value that has
no encoding.

## Main results

* `request_of_size`, `vault_of_size`: a body whose size is within the ceiling is built.
* `Owing.call`: a call that fits keeps the flag and the frames in agreement.
* `credentials_presented_once`: so does every run of calls that fit.
* `credentials_forgotten`: a parameter that is refused, and the next request is anonymous.
-/

namespace TessariDB

open ByteCodec ByteStream Utf8 BigEndian Connection

/-! ### What a frame presents -/

/-- The credentials in the bytes of a Request or a Vault frame. -/
def presentedBy (frame : Bytes) : Except ProtocolError (Option (Str × Str)) :=
  match frame with
  | [] => .error ⟨"no frame"⟩
  | kind :: rest =>
      let body := rest.drop 4
      if kind.toNat = Frames.VAULT then
        (Bodies.credentials body).map Prod.fst
      else
        match Reader.text "a script" body with
        | .ok (_, s) => (Bodies.credentials s).map Prod.fst
        | .error e => .error e

theorem presentedBy_request {script : Str} {credentials : Option (Str × Str)}
    {ps : List (Str × Value)} {body : Bytes} (h : requestBody script credentials ps = .ok body) :
    presentedBy (Frames.frame Frames.REQUEST body) = .ok credentials := by
  obtain ⟨b, d, hb, hd, rfl⟩ := Put.append_eq_ok.mp h
  obtain ⟨c, s, hc, -, rfl⟩ := Put.append_eq_ok.mp hd
  have hdrop : (toBytes 4 (b ++ (c ++ s)).length ++ (b ++ (c ++ s))).drop 4 = b ++ (c ++ s) :=
    List.drop_left' (length_toBytes ..)
  simp only [Frames.frame, presentedBy, hdrop]
  rw [if_neg (by decide), Reader.text_inverts "a script" script b hb (c ++ s)]
  dsimp only
  rw [Bodies.credentials_inverts credentials c hc s]
  rfl

theorem presentedBy_vault {credentials : Option (Str × Str)} {act : Act}
    {passphrase current new : Option Str} {place : Option (Str × Str × Str)} {body : Bytes}
    (h : frameBody credentials act passphrase current new place = .ok body) :
    presentedBy (Frames.frame Frames.VAULT body) = .ok credentials := by
  obtain ⟨c, s, hc, -, rfl⟩ := Put.append_eq_ok.mp h
  have hdrop : (toBytes 4 (c ++ s).length ++ (c ++ s)).drop 4 = c ++ s :=
    List.drop_left' (length_toBytes ..)
  simp only [Frames.frame, presentedBy, hdrop]
  rw [if_pos (by decide), Bodies.credentials_inverts credentials c hc s]
  rfl

/-- The first frame after the greeting presents the credentials, and no later one does. -/
def Presents (login : Str × Str) (s : Socket) : Prop :=
  (∀ f ∈ s.sent.tail.head?, presentedBy f = .ok (some login)) ∧
    ∀ f ∈ s.sent.tail.tail, presentedBy f = .ok none

/-! ### Sizes -/

/-- How long a text gets in a body. -/
def textSize (t : Str) : ℕ∞ :=
  match Utf8.encode t with
  | some raw => ((4 + raw.length : ℕ) : ℕ∞)
  | none => ⊤

/-- How long a value gets behind its length. -/
def encodedSize (v : Value) : ℕ∞ :=
  match encode v with
  | .ok raw => ((4 + raw.length : ℕ) : ℕ∞)
  | .error _ => ⊤

/-- A writer writes as much as its size says, as long as that is within the ceiling. -/
def Spans (p : Writer) (n : ℕ∞) : Prop :=
  n ≤ Frames.CEILING → ∃ b, p = .ok b ∧ (b.length : ℕ∞) = n

theorem Spans.append {p q : Writer} {n m : ℕ∞} (hp : Spans p n) (hq : Spans q m) :
    Spans (p ++ q) (n + m) := by
  intro h
  obtain ⟨b, rfl, rfl⟩ := hp (le_self_add.trans h)
  obtain ⟨c, rfl, rfl⟩ := hq (le_add_self.trans h)
  exact ⟨b ++ c, rfl, by rw [List.length_append, Nat.cast_add]⟩

theorem spans_lenbytes {raw : Bytes} :
    Spans (Writer.lenbytes raw) ((4 + raw.length : ℕ) : ℕ∞) := by
  intro h
  have hle : 4 + raw.length ≤ Frames.CEILING := Nat.cast_le.mp h
  have hmax : (raw.length : ℤ) ≤ UINT32_MAX := by
    rw [Frames.CEILING] at hle
    rw [UINT32_MAX]
    omega
  refine ⟨_, Writer.lenbytes_eq_ok.mpr ⟨hmax, rfl⟩, ?_⟩
  rw [List.length_append, length_toBytes]

theorem spans_text (t : Str) : Spans (Writer.text t) (textSize t) := by
  rw [textSize, Writer.text, Writer.encodeUtf8]
  cases Utf8.encode t with
  | none => exact fun h => absurd h (by simp)
  | some raw => exact spans_lenbytes

theorem spans_encoded (v : Value) : Spans (Writer.encoded v) (encodedSize v) := by
  rw [encodedSize, Writer.encoded]
  cases encode v with
  | error e => exact fun h => absurd h (by simp)
  | ok raw => exact spans_lenbytes

theorem spans_u8 {v : ℤ} (h : 0 ≤ v ∧ v ≤ 255) : Spans (Writer.u8 v) 1 := by
  intro _
  refine ⟨_, Writer.u8_eq_ok.mpr ⟨h, rfl⟩, ?_⟩
  rw [length_toBytes]
  rfl

theorem spans_concat {α : Type} {p : α → Writer} {f : α → ℕ∞} {l : List α}
    (h : ∀ a ∈ l, Spans (p a) (f a)) : Spans (Put.concat (l.map p)) (l.map f).sum := by
  induction l with
  | nil => exact fun _ => ⟨[], rfl, rfl⟩
  | cons a l ih =>
      obtain ⟨ha, hl⟩ := List.forall_mem_cons.mp h
      rw [List.map_cons, List.map_cons, List.sum_cons, Put.concat_cons]
      exact ha.append (ih hl)

/-- The size of a Request that presents credentials. -/
def requestSize (script : Str) (login : Str × Str) (ps : List (Str × Value)) : ℕ∞ :=
  textSize script + ((1 + (textSize login.1 + textSize login.2)) +
    (4 + (ps.map fun p => textSize p.1 + encodedSize p.2).sum))

/-- How long the target of a Vault frame gets. -/
def placeSize (act : Act) : Option (Str × Str × Str) → ℕ∞
  | none => if act = .declare then ⊤ else 1
  | some (namespace_, database, name) =>
      1 + (textSize namespace_ + (textSize database + textSize name))

/-- The size of a Vault frame that presents credentials. -/
def vaultSize (login : Str × Str) (act : Act) (passphrase current new : Option Str)
    (place : Option (Str × Str × Str)) : ℕ∞ :=
  (1 + (textSize login.1 + textSize login.2)) +
    (placeSize act place +
      (1 + ((Bodies.fieldsOf act passphrase current new).map textSize).sum))

theorem spans_credentials (login : Str × Str) :
    Spans (Writer.credentials (some login)) (1 + (textSize login.1 + textSize login.2)) :=
  (spans_u8 (by decide)).append ((spans_text login.1).append (spans_text login.2))

theorem spans_place (act : Act) (place : Option (Str × Str × Str)) :
    Spans (Writer.place act place) (placeSize act place) := by
  rcases place with - | ⟨namespace_, database, name⟩
  · rw [Writer.place, placeSize]
    split
    · exact fun h => absurd h (by simp)
    · exact spans_u8 (by decide)
  · exact (spans_u8 (by decide)).append ((spans_text namespace_).append
      ((spans_text database).append (spans_text name)))

theorem one_le_textSize (t : Str) : 1 ≤ textSize t := by
  rw [textSize]
  cases Utf8.encode t with
  | none => exact le_top
  | some raw => exact Nat.one_le_cast.mpr (by omega)

theorem spans_parameters (ps : List (Str × Value)) :
    Spans (Writer.parameters ps)
      (4 + (ps.map fun p => textSize p.1 + encodedSize p.2).sum) := by
  intro h
  have hone : ∀ x ∈ ps.map fun p => textSize p.1 + encodedSize p.2, (1 : ℕ∞) ≤ x := by
    rw [List.forall_mem_map]
    exact fun p _ => (one_le_textSize p.1).trans le_self_add
  have hcount := List.card_nsmul_le_sum _ 1 hone
  rw [nsmul_one, List.length_map] at hcount
  have hle : ps.length ≤ Frames.CEILING :=
    Nat.cast_le.mp (hcount.trans (le_add_self.trans h))
  have hmax : 0 ≤ (ps.length : ℤ) ∧ (ps.length : ℤ) ≤ UINT32_MAX := by
    rw [Frames.CEILING] at hle
    rw [UINT32_MAX]
    omega
  have hwidth : Spans (Writer.u32 ps.length) 4 := fun _ =>
    ⟨_, Writer.u32_eq_ok.mpr ⟨hmax, rfl⟩, by rw [length_toBytes]; rfl⟩
  exact hwidth.append (spans_concat fun p _ => (spans_text p.1).append (spans_encoded p.2)) h

theorem request_of_size {script : Str} {login : Str × Str} {ps : List (Str × Value)}
    (h : requestSize script login ps ≤ Frames.CEILING) :
    ∃ body, requestBody script (some login) ps = .ok body ∧ body.length ≤ Frames.CEILING := by
  obtain ⟨body, hbody, hlen⟩ := ((spans_text script).append
    ((spans_credentials login).append (spans_parameters ps))) h
  exact ⟨body, hbody, Nat.cast_le.mp (hlen.trans_le h)⟩

theorem vault_of_size {login : Str × Str} {act : Act} {passphrase current new : Option Str}
    {place : Option (Str × Str × Str)}
    (h : vaultSize login act passphrase current new place ≤ Frames.CEILING) :
    ∃ body, frameBody (some login) act passphrase current new place = .ok body ∧
      body.length ≤ Frames.CEILING := by
  have hfields : Spans (Writer.actFields act passphrase current new)
      ((Bodies.fieldsOf act passphrase current new).map textSize).sum := by
    rw [actFields_eq]
    exact spans_concat fun t _ => spans_text t
  have hact : Spans (Writer.u8 act.code) 1 := spans_u8 (by cases act <;> decide)
  obtain ⟨body, hbody, hlen⟩ :=
    ((spans_credentials login).append ((spans_place act place).append (hact.append hfields))) h
  exact ⟨body, hbody, Nat.cast_le.mp (hlen.trans_le h)⟩

/-! ### Calls that fit -/

/-- A text that has an encoding and a length prefix. -/
def Writable (t : Str) : Prop := ∃ b, Writer.text t = .ok b

/-- A socket that takes one more write. -/
def Ready (s : Socket) : Prop := s.closed = false ∧ s.sends ≠ 0

/-- Where credentials are owed, a statement is refused before they are put in its body, or its
frame goes out. -/
def AskFits (login : Str × Str) (c : Connection) (w : World) (script : Str)
    (ps : List (Str × Value)) : Prop :=
  c.owed = true →
    ¬ (Writable script ∧ Writable login.1 ∧ Writable login.2) ∨
      (requestSize script login ps ≤ Frames.CEILING ∧ Ready (w.sockets c.sock))

/-- The same for any call; a vault frame is refused beforehand by an older node only. -/
def Call.Fits (login : Str × Str) (c : Connection) (w : World) : Call → Prop
  | .execute script ps => AskFits login c w script ps
  | .vault act passphrase current new place =>
      c.owed = true → c.minor < Frames.VAULT_MINOR ∨
        (vaultSize login act passphrase current new place ≤ Frames.CEILING ∧
          Ready (w.sockets c.sock))

/-- Every call of a run fits the state it is made in. -/
def AllFit (login : Str × Str) : List Call → Connection × World → Prop
  | [], _ => True
  | call :: calls, cw =>
      call.Fits login cw.1 cw.2 ∧ AllFit login calls (after (call.run cw))

/-! ### What is owed -/

/-- The flag of a connection agrees with its socket, and on every socket opened from `base` on
the first frame presented the credentials, and no later one did. -/
structure Owing (base : ℕ) (login : Str × Str) (c : Connection) (w : World) : Prop where
  held : base ≤ c.sock ∧ c.sock < w.opened
  who : c.login = some login
  presents : ∀ i, base ≤ i → i < w.opened → Presents login (w.sockets i)
  greeted : (w.sockets c.sock).sent ≠ []
  owes : c.owed = true ↔ (w.sockets c.sock).sent.tail = []

theorem Presents.concat {login : Str × Str} {s s' : Socket} {f : Bytes} (h : Presents login s)
    (hne : s.sent ≠ []) (hsent : s'.sent = s.sent ++ [f])
    (hf : presentedBy f = .ok (if s.sent.tail = [] then some login else none)) :
    Presents login s' := by
  rw [Presents, hsent, List.tail_append_of_ne_nil hne]
  cases htail : s.sent.tail with
  | nil =>
      rw [htail, if_pos rfl] at hf
      refine ⟨?_, nofun⟩
      rintro _ ⟨⟩
      exact hf
  | cons g gs =>
      rw [htail, if_neg (List.cons_ne_nil g gs)] at hf
      rw [Presents, htail] at h
      exact ⟨h.1, List.forall_mem_append.mpr ⟨h.2, List.forall_mem_singleton.mpr hf⟩⟩

theorem Connection.spent_owed {c : Connection} {login : Str × Str} (h : c.login = some login) :
    c.spent.owed = false := by
  rcases c with ⟨_, - | user, _, - | -, _, _⟩
  · cases h
  · cases h
  · rfl
  · rfl

/-- A frame that presents what is owed, and goes out if anything is. -/
theorem Owing.exchanged {base kind : ℕ} {login : Str × Str} {c : Connection} {w : World}
    {body : Bytes} {s' : Socket} {r : Except Raised Reply} (h : Owing base login c w)
    (hpresented : presentedBy (Frames.frame kind body) = .ok c.credentials)
    (hfits : c.owed = true → body.length ≤ Frames.CEILING ∧ Ready (w.sockets c.sock))
    (hr : Exchanged kind body (w.sockets c.sock) s' r) :
    Owing base login c.spent (w.put c.sock s') := by
  have hsent : (c.owed = false ∧ s' = w.sockets c.sock) ∨
      s'.sent = (w.sockets c.sock).sent ++ [Frames.frame kind body] := by
    cases hr with
    | unsent _ hunsent =>
        refine .inl ⟨?_, rfl⟩
        by_contra howed
        obtain ⟨hbody, hopen, hsends⟩ := hfits (Bool.eq_true_of_not_eq_false howed)
        rcases hunsent with hlong | hclosed | hzero
        · exact absurd hlong (Nat.not_lt.mpr hbody)
        · cases hclosed.symm.trans hopen
        · exact hsends hzero
    | answered _ _ _ _ _ _ hadv => exact .inr hadv.sent
    | broken _ _ _ _ _ _ hadv => exact .inr hadv.sent
  rcases hsent with ⟨howed, rfl⟩ | hsent
  · rw [(spent_of_not_owed (.inl howed)).1, World.put_self]
    exact h
  have hcredentials : c.credentials =
      if (w.sockets c.sock).sent.tail = [] then some login else none := by
    rw [credentials, ← h.who]
    exact if_congr h.owes rfl rfl
  refine ⟨h.held, h.who, fun i hbase hi => ?_, ?_, ?_⟩
  · by_cases hself : i = c.sock
    · rw [hself, World.put_sockets_self]
      exact (h.presents _ h.held.1 h.held.2).concat h.greeted hsent (hcredentials ▸ hpresented)
    · rw [World.put_sockets_of_ne _ hself]
      exact h.presents i hbase hi
  · rw [spent_sock, World.put_sockets_self, hsent]
    exact List.append_ne_nil_of_right_ne_nil _ (List.cons_ne_nil _ _)
  · rw [spent_owed h.who, spent_sock, World.put_sockets_self, hsent,
      List.tail_append_of_ne_nil h.greeted]
    simp

/-- The credentials of a connection that owes them. -/
theorem Owing.credentials_of_owed {base : ℕ} {login : Str × Str} {c : Connection} {w : World}
    (h : Owing base login c w) (howed : c.owed = true) : c.credentials = some login := by
  rw [credentials, if_pos howed]
  exact h.who

theorem writable_of_ok {script : Str} {login : Str × Str} {b : Bytes}
    (h : Writer.text script ++ Writer.credentials (some login) = .ok b) :
    Writable script ∧ Writable login.1 ∧ Writable login.2 := by
  obtain ⟨b₁, b₂, hscript, hlogin, -⟩ := Put.append_eq_ok.mp h
  obtain ⟨-, b₃, -, hlogin, -⟩ := Put.append_eq_ok.mp hlogin
  obtain ⟨b₄, b₅, huser, hpassword, -⟩ := Put.append_eq_ok.mp hlogin
  exact ⟨⟨b₁, hscript⟩, ⟨b₄, huser⟩, ⟨b₅, hpassword⟩⟩

/-- A statement refused before the flag is touched leaves it, and one refused after is not
refused where it fits. -/
theorem Owing.requested_eq_self {base : ℕ} {login : Str × Str} {c : Connection} {w : World} {script : Str}
    {ps : List (Str × Value)} {e : Raised} (h : Owing base login c w)
    (hfits : AskFits login c w script ps)
    (hbody : requestBody script c.credentials ps = .error e) : c.requested script = c := by
  by_cases howed : c.owed = true
  · rw [h.credentials_of_owed howed] at hbody
    rcases hfits howed with hearly | ⟨hsize, -⟩
    · rw [requested, h.credentials_of_owed howed]
      split
      · next hok => exact absurd (writable_of_ok hok) hearly
      · rfl
    · obtain ⟨body, hok, -⟩ := request_of_size hsize
      cases hbody.symm.trans hok
  · rcases requested_eq c script with hsame | hsame
    · exact hsame
    · rw [hsame, (spent_of_not_owed (.inl (Bool.eq_false_of_not_eq_true howed))).1]

theorem Owing.ask {base : ℕ} {login : Str × Str} {c : Connection} {w : World}
    (h : Owing base login c w) {script : Str} {ps : List (Str × Value)}
    (hfits : AskFits login c w script ps) :
    Owing base login (after (Connection.ask script ps (c, w))).1
      (after (Connection.ask script ps (c, w))).2 := by
  rcases ask_spec script ps c w with ⟨-, e, hask⟩ | ⟨-, e, hbody, hask⟩ |
    ⟨-, body, s', r, hbody, hr, hask⟩
  · rw [hask]
    exact h
  · rw [hask, h.requested_eq_self hfits hbody]
    exact h
  · rw [hask, after_settle]
    refine h.exchanged (presentedBy_request hbody) (fun howed => ?_) hr
    rw [h.credentials_of_owed howed] at hbody
    rcases hfits howed with hearly | ⟨hsize, hready⟩
    · rw [requestBody, ← Put.append_assoc] at hbody
      obtain ⟨b, -, hok, -⟩ := Put.append_eq_ok.mp hbody
      exact absurd (writable_of_ok hok) hearly
    · obtain ⟨body', hok, hlen⟩ := request_of_size hsize
      obtain rfl := Except.ok.inj (hbody.symm.trans hok)
      exact ⟨hlen, hready⟩

theorem Owing.vault {base : ℕ} {login : Str × Str} {c : Connection} {w : World}
    (h : Owing base login c w) {act : Act} {passphrase current new : Option Str}
    {place : Option (Str × Str × Str)}
    (hfits : Call.Fits login c w (.vault act passphrase current new place)) :
    Owing base login
      (after (Connection.vault (fun credentials =>
        frameBody credentials act passphrase current new place) (c, w))).1
      (after (Connection.vault (fun credentials =>
        frameBody credentials act passphrase current new place) (c, w))).2 := by
  -- Past the check of the minor, a vault frame that fits is built within the ceiling.
  have hbuilt : Frames.VAULT_MINOR ≤ c.minor → c.owed = true →
      ∃ body, frameBody c.credentials act passphrase current new place = .ok body ∧
        body.length ≤ Frames.CEILING ∧ Ready (w.sockets c.sock) := by
    intro hminor howed
    rcases hfits howed with hold | ⟨hsize, hready⟩
    · exact absurd hold (Nat.not_lt.mpr hminor)
    · obtain ⟨body, hok, hlen⟩ := vault_of_size hsize
      rw [h.credentials_of_owed howed]
      exact ⟨body, hok, hlen, hready⟩
  rcases vault_spec (fun credentials =>
      frameBody credentials act passphrase current new place) c w with
    ⟨-, e, hvault⟩ | ⟨hminor, e, hbody, hvault⟩ | ⟨hminor, raw, s', r, hbody, hr, hvault⟩
  · rw [hvault]
    exact h
  · rw [hvault]
    by_cases howed : c.owed = true
    · obtain ⟨body, hok, -⟩ := hbuilt hminor howed
      cases hbody.symm.trans hok
    · rw [after, (spent_of_not_owed (.inl (Bool.eq_false_of_not_eq_true howed))).1]
      exact h
  · rw [hvault, after_settle]
    refine h.exchanged (presentedBy_vault hbody) (fun howed => ?_) hr
    obtain ⟨body, hok, hlen, hready⟩ := hbuilt hminor howed
    obtain rfl := Except.ok.inj (hbody.symm.trans hok)
    exact ⟨hlen, hready⟩

/-! ### Following -/

theorem presentedBy_of_asked {statements : List (Str × List (Str × Value))}
    {requests : List (ℕ × Bytes)} (h : Asked none statements requests) :
    ∀ f ∈ requests.map fun f => Frames.frame f.1 f.2, presentedBy f = .ok none := by
  generalize hnone : (none : Option (Str × Str)) = credentials at h
  induction h with
  | nil => exact nofun
  | cons hbody _ ih =>
      subst hnone
      exact List.forall_mem_cons.mpr ⟨presentedBy_request hbody, ih rfl⟩

/-- What was asked on a new connection presented its credentials once. -/
theorem Conversed.presents {login : Str × Str} {s : Socket} {requests replies : List (ℕ × Bytes)}
    {statements : List (Str × List (Str × Value))} (h : Conversed s requests replies)
    (hasked : Asked (some login) statements requests) : Presents login s := by
  rw [Presents, h.sent]
  cases hasked with
  | nil => exact ⟨nofun, nofun⟩
  | cons hbody hrest =>
      refine ⟨?_, presentedBy_of_asked hrest⟩
      rintro _ ⟨⟩
      exact presentedBy_request hbody

/-- Following a redirect keeps what was presented on each socket. -/
theorem Owing.presents_of_trail {base : ℕ} {login : Str × Str} {c : Connection} {w : World}
    (h : Owing base login c w) {script selecting : Str} {ps : List (Str × Value)}
    {left floor : ℕ} {redirect : Elsewhere} {visits : List Visit}
    {r : EStateM.Result Raised (Connection × World) Reply}
    (htrail : Follow.Trail script ps selecting c w left redirect floor visits r) :
    ∀ i, base ≤ i → i < (after r).2.opened → Presents login ((after r).2.sockets i) := by
  intro i hbase hi
  by_cases hlow : i < w.opened
  · by_cases hself : i = c.sock
    · rw [hself, Presents, htrail.own_sent]
      exact h.presents _ h.held.1 h.held.2
    · rw [htrail.kept i hlow hself]
      exact h.presents i hbase hlow
  · -- Every socket past those there were is that of a visit.
    obtain ⟨v, hv, rfl⟩ := List.mem_map.mp (htrail.mem_socks.mpr ⟨Nat.not_lt.mp hlow, hi⟩)
    have hsafe := htrail.safe v hv
    have hasked := hsafe.asked
    rw [h.who] at hasked
    exact hsafe.conversed.presents hasked

/-- Following a redirect keeps the flag and the frames in agreement. -/
theorem Owing.of_trail {base : ℕ} {login : Str × Str} {c : Connection} {w : World}
    (h : Owing base login c w) {script selecting : Str} {ps : List (Str × Value)}
    {left floor : ℕ} {redirect : Elsewhere} {visits : List Visit}
    {r : EStateM.Result Raised (Connection × World) Reply}
    (htrail : Follow.Trail script ps selecting c w left redirect floor visits r) :
    Owing base login (after r).1 (after r).2 := by
  have hpresents := h.presents_of_trail htrail
  have hown := htrail.own_sent
  cases htrail.ended with
  | stayed hc _ _ =>
      rw [hc]
      refine ⟨⟨h.held.1, ?_⟩, h.who, hpresents, ?_, ?_⟩
      · rw [htrail.opened]
        exact Nat.lt_add_right _ h.held.2
      · rw [hown]
        exact h.greeted
      · rw [hown]
        exact h.owes
  | moved reply v minor _ hlast hc _ hsent hstep _ =>
      obtain ⟨hnew, hlt⟩ :=
        htrail.mem_socks.mp (List.mem_map_of_mem (List.mem_of_getLast? hlast))
      rw [hc]
      refine ⟨⟨?_, hlt⟩, h.who, hpresents, ?_, ?_⟩
      · exact (h.held.1.trans (Nat.le_of_lt h.held.2)).trans hnew
      · rw [hstep.sent]
        exact List.cons_ne_nil _ _
      · rw [hstep.sent]
        simpa using hsent

theorem Owing.execute {base : ℕ} {login : Str × Str} {c : Connection} {w : World}
    (h : Owing base login c w) {script : Str} {ps : List (Str × Value)}
    (hfits : AskFits login c w script ps) :
    Owing base login (after (Connection.execute script ps (c, w))).1
      (after (Connection.execute script ps (c, w))).2 := by
  rcases execute_spec script ps h.held.2 with ⟨hexecute, -⟩ |
    ⟨reply, redirect, s₁, s₂, hask, -, hrest⟩
  · rw [hexecute]
    exact h.ask hfits
  have hasked : Owing base login c.spent (w.put c.sock s₁) := by
    have howing := h.ask hfits
    rwa [hask] at howing
  have hfits' : AskFits login c.spent (w.put c.sock s₁) Follow.CONTEXT [] := fun howed =>
    nomatch (spent_owed h.who).symm.trans howed
  have hselected := hasked.ask hfits'
  rw [← Follow.after_selection] at hselected
  rcases hrest with ⟨e, hselection, hexecute⟩ | ⟨selecting, visits, hselection, htrail, -⟩
  · rw [hselection] at hselected
    rw [hexecute]
    exact hselected
  · rw [hselection] at hselected
    exact Owing.of_trail hselected htrail

/-! ### Runs -/

/-- A call that fits keeps the flag and the frames in agreement. -/
theorem Owing.call {base : ℕ} {login : Str × Str} {c : Connection} {w : World}
    (h : Owing base login c w) {call : Call} (hfits : call.Fits login c w) :
    Owing base login (after (call.run (c, w))).1 (after (call.run (c, w))).2 := by
  cases call with
  | execute script parameters =>
      rw [Call.run, after_discard]
      exact h.execute hfits
  | vault act passphrase current new place =>
      rw [Call.run, after_discard]
      exact h.vault hfits

theorem Owing.runs {base : ℕ} {login : Str × Str} {cw : Connection × World} {calls : List Call}
    (h : Owing base login cw.1 cw.2) (hfits : AllFit login calls cw) :
    Owing base login (runs calls cw).1 (runs calls cw).2 := by
  induction calls generalizing cw with
  | nil => exact h
  | cons call calls ih => exact ih (h.call hfits.1) hfits.2

theorem owing_of_connect {address user : Str} {password : Option Str} {w w' : World}
    {c : Connection} (h : connect address (some user) password w = .ok c w') :
    Owing w.opened (user, password.getD []) c w' := by
  rcases connect_spec address (some user) password w with ⟨e, _, hrun, -⟩ | ⟨e, _, s, hrun, -⟩ |
    ⟨minor, w₁, s, hrun, hsockets, hopened, hs⟩
  · cases hrun.symm.trans h
  · cases hrun.symm.trans h
  · obtain ⟨rfl, rfl⟩ := EStateM.Result.ok.inj (hrun.symm.trans h)
    have hself : w₁.sockets w.opened = s := by rw [hsockets, Function.update_self]
    refine ⟨⟨Nat.le_refl _, hopened ▸ Nat.lt_succ_self _⟩, rfl, fun i hlow hhigh => ?_, ?_, ?_⟩
    · obtain rfl : i = w.opened := by omega
      rw [hself]
      exact hs.conversed.presents (.nil (some _) [])
    · rw [hself, hs.sent]
      exact List.cons_ne_nil _ _
    · rw [hself, hs.sent]
      exact ⟨fun _ => rfl, fun _ => rfl⟩

/-- A call that raises has not moved the connection. -/
theorem Call.sock_of_error {call : Call} {c : Connection} {w : World} {e : Raised}
    (hheld : c.sock < w.opened) (h : outcome (call.run (c, w)) = .error e) :
    (after (call.run (c, w))).1.sock = c.sock := by
  cases call with
  | execute script ps =>
      rw [Call.run, outcome_discard_eq_error] at h
      rw [Call.run, after_discard]
      rcases execute_spec script ps hheld with ⟨hexecute, -⟩ |
        ⟨reply, redirect, s₁, s₂, -, -, hrest⟩
      · obtain ⟨c', s', hafter, hc'⟩ := ask_stays script ps c w
        rw [hexecute, hafter]
        exact Follow.sock_of_spent hc'
      rcases hrest with ⟨e', -, hexecute⟩ | ⟨selecting, visits, -, htrail, -⟩
      · rw [hexecute]
        rfl
      · cases htrail.ended with
        | stayed hc _ _ =>
            rw [hc]
            rfl
        | moved _ _ _ hr => cases h.symm.trans hr
  | vault act passphrase current new place =>
      rw [Call.run, after_discard]
      rcases vault_spec (fun credentials =>
          frameBody credentials act passphrase current new place) c w with
        ⟨-, e', hvault⟩ | ⟨-, e', -, hvault⟩ | ⟨-, raw, s', r, -, -, hvault⟩
      · rw [hvault]
        rfl
      · rw [hvault]
        rfl
      · rw [hvault, after_settle]
        rfl

/-- **Credentials are presented exactly once.** On a connection opened with a user, after any
run of calls that fit: on every socket since, the first frame presented the user and the
password and no later one did, and a further call that fits and raises without sending anything
leaves the debt as it was. -/
theorem credentials_presented_once {address user : Str} {password : Option Str} {w₀ w : World}
    {c : Connection} (hconnect : connect address (some user) password w₀ = .ok c w)
    {calls : List Call} (hfits : AllFit (user, password.getD []) calls (c, w)) :
    (∀ i, w₀.opened ≤ i → i < (runs calls (c, w)).2.opened →
      Presents (user, password.getD []) ((runs calls (c, w)).2.sockets i)) ∧
    ∀ call : Call,
      call.Fits (user, password.getD []) (runs calls (c, w)).1 (runs calls (c, w)).2 →
      (∃ e, outcome (call.run (runs calls (c, w))) = .error e) →
      ((after (call.run (runs calls (c, w)))).2.sockets (runs calls (c, w)).1.sock).sent =
        ((runs calls (c, w)).2.sockets (runs calls (c, w)).1.sock).sent →
      (after (call.run (runs calls (c, w)))).1.owed = (runs calls (c, w)).1.owed := by
  have h := (owing_of_connect hconnect).runs hfits
  refine ⟨h.presents, fun call hcall hraised hunsent => ?_⟩
  have h' := h.call hcall
  obtain ⟨e, he⟩ := hraised
  have hsock := Call.sock_of_error h.held.2 he
  have howes := h'.owes
  rw [hsock, hunsent, ← h.owes] at howes
  exact Bool.eq_iff_iff.mpr howes

/-- A connection just opened with a user and no password. -/
def newcomer : Connection := ⟨0, some (ofString "u"), none, true, false, 4⟩

/-- The world it was opened in. -/
def greeted : World := after (connect (ofString "a:1") (some (ofString "u")) none answering)

theorem connect_newcomer : connect (ofString "a:1") (some (ofString "u")) none answering =
    .ok newcomer greeted := by
  change _ = EStateM.Result.ok (⟨0, some (ofString "u"), none, true, false, 4⟩ : Connection)
    (after (connect (ofString "a:1") (some (ofString "u")) none answering))
  rfl

/-- A script that cannot be written, which is refused and leaves the debt, and two statements. -/
def refusedThenTwo : List Call :=
  [.execute [codePoint 0xD800] [], .execute (ofString "RETURN 1;") [],
    .execute (ofString "RETURN 2;") []]

/-- Both statements go out, and the first of them presents the user. -/
theorem credentials_presented_once_by_two_statements :
    ((runs refusedThenTwo (newcomer, greeted)).2.sockets 0).sent.length = 3 ∧
      Presents (ofString "u", []) ((runs refusedThenTwo (newcomer, greeted)).2.sockets 0) := by
  have hfits : AllFit (ofString "u", Option.getD none []) refusedThenTwo (newcomer, greeted) :=
    ⟨fun _ => .inl fun ⟨⟨_, hwritten⟩, _⟩ => (nomatch hwritten),
      fun _ => .inr ⟨by decide +kernel, by decide +kernel, by decide +kernel⟩,
      fun howed => absurd howed (by decide +kernel), trivial⟩
  exact ⟨by decide +kernel, (credentials_presented_once connect_newcomer hfits).1 0 (Nat.zero_le _)
    (by decide +kernel)⟩

/-- An integer past 64 bits is refused after the flag is cleared and before anything is sent, and
the next request, which is the first one that is sent, is anonymous. -/
theorem credentials_forgotten :
    connect (ofString "a:1") (some (ofString "u")) none answering = .ok newcomer greeted ∧
      newcomer.owed = true ∧
      (∃ e, outcome (Call.run (.execute (ofString "RETURN $n;")
        [(ofString "n", .integer (2 ^ 63))]) (newcomer, greeted)) = .error e) ∧
      ((runs [.execute (ofString "RETURN $n;") [(ofString "n", .integer (2 ^ 63))]]
        (newcomer, greeted)).2.sockets 0).sent = [Frames.GREETING] ∧
      (runs [.execute (ofString "RETURN $n;") [(ofString "n", .integer (2 ^ 63))]]
        (newcomer, greeted)).1.owed = false ∧
      ¬ Presents (ofString "u", [])
        ((runs [.execute (ofString "RETURN $n;") [(ofString "n", .integer (2 ^ 63))],
          .execute (ofString "RETURN 1;") []] (newcomer, greeted)).2.sockets 0) := by
  refine ⟨connect_newcomer, rfl, ⟨_, rfl⟩, by decide +kernel, by decide +kernel, fun h => ?_⟩
  have hfirst := h.1 (Frames.frame Frames.REQUEST
    [0, 0, 0, 9, 0x52, 0x45, 0x54, 0x55, 0x52, 0x4E, 0x20, 0x31, 0x3B, 0, 0, 0, 0, 0])
    (by decide +kernel)
  exact absurd hfirst (by decide +kernel)

end TessariDB
