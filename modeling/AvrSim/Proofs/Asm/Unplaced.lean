import AvrSim.Asm.Program
import AvrSim.Proofs.Asm.Operands
import Mathlib.Data.List.Forall2

/-!
# Words without their places

Where a word stands in a source is told by errors and used for nothing else. A line read elsewhere has the
same words, and the same words give the same instruction wherever they stand, as long as names have the
same values.

* `Token.Alike`: two words differ at most in their places.
* `LineReader.alike_step`: reading a byte keeps two readers alike, `alike_readLine` for a whole line.
* `Checked.Agree`: both are refused, or both accepted with the same result.
* `agree_instruction` and `settled_items`: what a statement gives does not depend on its place.
-/

namespace AvrSim.Asm

/-! ## Words -/

/-- A word that stands nowhere. -/
def Token.unplaced (t : Token) : Token := { t with position := ⟨0, 0, 0, 0, 0⟩ }

/-- The same word, perhaps at another place. -/
structure Token.Alike (t t' : Token) : Prop where
  kind : t.kind = t'.kind
  text : t.text = t'.text

theorem Token.alike_iff {t t' : Token} : t.Alike t' ↔ t.unplaced = t'.unplaced := by
  obtain ⟨kind, position, text⟩ := t
  obtain ⟨kind', position', text'⟩ := t'
  simp only [unplaced, Token.mk.injEq, true_and]
  exact ⟨fun h => ⟨h.kind, h.text⟩, fun h => ⟨h.1, h.2⟩⟩

theorem Token.Alike.symm {t t' : Token} (h : t.Alike t') : t'.Alike t := ⟨h.kind.symm, h.text.symm⟩

theorem Token.Alike.trans {t t' t'' : Token} (h : t.Alike t') (h' : t'.Alike t'') : t.Alike t'' :=
  ⟨h.kind.trans h'.kind, h.text.trans h'.text⟩

theorem forall₂_alike_iff {tokens tokens' : List Token} :
    List.Forall₂ Token.Alike tokens tokens' ↔
      tokens.map Token.unplaced = tokens'.map Token.unplaced := by
  have hrelation : Token.Alike = fun t t' => t.unplaced = t'.unplaced := by
    funext t t'
    exact propext Token.alike_iff
  rw [← List.forall₂_eq_eq_eq, List.forall₂_map_left_iff, List.forall₂_map_right_iff, hrelation]

/-- The label and the words of a line without their places. -/
def LineWords.unplaced (words : LineWords) : LineWords :=
  ⟨words.label.map Token.unplaced, words.tokens.map Token.unplaced⟩

/-- A statement without the places of its words. -/
def Statement.unplaced (s : Statement) : Statement :=
  { s with keyword := s.keyword.unplaced, operands := s.operands.map Token.unplaced }

@[simp] theorem Statement.unplaced_unplaced (s : Statement) : s.unplaced.unplaced = s.unplaced := by
  have hidem : Token.unplaced ∘ Token.unplaced = Token.unplaced := rfl
  simp only [unplaced, List.map_map, hidem]
  rfl

/-! ## Reading a line elsewhere -/

namespace LineReader

/-- What two readers have read differs at most in places. -/
structure Alike (r r' : LineReader) : Prop where
  index : r.index = r'.index
  previous : r.previous = r'.previous
  word : r.word = r'.word
  quoted : r.quoted = r'.quoted
  comment : r.comment = r'.comment
  label : r.label.map Token.unplaced = r'.label.map Token.unplaced
  tokens : r.tokens.toList.map Token.unplaced = r'.tokens.toList.map Token.unplaced
  errors : r.errors.size = r'.errors.size

variable {r r' : LineReader} {origin origin' : LineStart}

theorem alike_report (h : Alike r r') (e e' : Error) : Alike (r.report e) (r'.report e') :=
  { h with errors := by simp [report, h.errors] }

theorem alike_extend (h : Alike r r') (b : UInt8) : Alike (r.extend b) (r'.extend b) :=
  { h with word := by simp [extend, h.word] }

theorem alike_start (h : Alike r r') (b : UInt8) : Alike (r.start b) (r'.start b) :=
  { h with word := by simp [start, h.index] }

theorem alike_close (h : Alike r r') (origin origin' : LineStart) :
    Alike (r.close origin) (r'.close origin') := by
  have hword := h.word
  unfold close
  cases hopen : r.word with
  | none =>
    rw [← hword, hopen]
    exact h
  | some word =>
    obtain ⟨start, reversed⟩ := word
    rw [← hword, hopen]
    dsimp only
    have hpush {k k' : LineReader} (hk : Alike k k') (p p' : Position) :
        Alike
          { k with
            word := none
            tokens := k.tokens.push ⟨TokenKind.ofText reversed.reverse, p, reversed.reverse⟩ }
          { k' with
            word := none
            tokens := k'.tokens.push ⟨TokenKind.ofText reversed.reverse, p', reversed.reverse⟩ } :=
      { hk with
        word := rfl
        tokens := by simp [hk.tokens, Token.unplaced] }
    cases firstBad? (TokenKind.ofText reversed.reverse) start reversed.reverse with
    | none => exact hpush h _ _
    | some bad => exact hpush (alike_report h _ _) _ _

/-- A reader with other words. -/
theorem Alike.setTokens (h : Alike r r') : Alike { r with tokens := #[] } { r' with tokens := #[] } :=
  { h with tokens := rfl }

theorem Alike.isEmpty_tokens (h : Alike r r') : r.tokens.isEmpty = r'.tokens.isEmpty := by
  have hlength := congrArg List.length h.tokens
  rw [List.length_map, List.length_map, Array.length_toList, Array.length_toList] at hlength
  rw [Array.isEmpty, Array.isEmpty, hlength]

theorem alike_colon (h : Alike r r') (b : UInt8) : Alike (r.colon origin b) (r'.colon origin' b) := by
  have hlabel : r.label.isSome = r'.label.isSome := by
    rw [← Option.isSome_map, h.label, Option.isSome_map]
  unfold colon
  rw [h.word, h.isEmpty_tokens, hlabel]
  split
  · exact alike_extend (alike_report h _ _) b
  · have hclose := alike_close h origin origin'
    have hfirst : (r.close origin).tokens[0]?.map Token.unplaced =
        (r'.close origin').tokens[0]?.map Token.unplaced := by
      rw [← Array.getElem?_toList, ← Array.getElem?_toList, ← List.getElem?_map, hclose.tokens,
        List.getElem?_map]
    dsimp only
    cases htoken : (r.close origin).tokens[0]? with
    | none =>
      rw [htoken, Option.map_none, eq_comm, Option.map_eq_none_iff] at hfirst
      rw [hfirst]
      exact hclose
    | some token =>
      rw [htoken, Option.map_some, eq_comm, Option.map_eq_some_iff] at hfirst
      obtain ⟨token', htoken', hsame⟩ := hfirst
      have hkind : token'.kind = token.kind := (Token.alike_iff.mpr hsame).kind
      rw [htoken']
      dsimp only
      rw [hkind]
      split
      · exact { hclose.setTokens with label := congrArg some hsame.symm }
      · exact alike_report hclose.setTokens _ _

theorem alike_plainByte (h : Alike r r') (b : UInt8) :
    Alike (r.plainByte origin b) (r'.plainByte origin' b) := by
  have hclose := alike_close h origin origin'
  unfold plainByte
  rw [h.word]
  split
  · exact { hclose with comment := rfl }
  · split
    · exact hclose
    · split
      · exact alike_colon h b
      · split
        · split
          · exact alike_extend (alike_report h _ _) b
          · exact { alike_start h b with quoted := rfl }
        · split
          · split
            · exact alike_extend h b
            · exact alike_start h b
          · exact alike_extend (alike_report h _ _) b

/-- Reading a byte keeps two readers alike. -/
theorem alike_step (h : Alike r r') (b : UInt8) : Alike (step origin r b) (step origin' r' b) := by
  have hnext {k k' : LineReader} (hk : Alike k k') :
      Alike { k with index := r.index + 1, previous := b }
        { k' with index := r'.index + 1, previous := b } :=
    { hk with
      index := congrArg (· + 1) h.index
      previous := rfl }
  have hextend := alike_extend h b
  unfold step
  dsimp only
  apply hnext
  rw [h.comment, h.quoted]
  split
  · exact h
  · split
    · have hprevious : (r.extend b).previous = (r'.extend b).previous := hextend.previous
      rw [hprevious]
      split
      · exact { alike_close hextend origin origin' with quoted := rfl }
      · exact hextend
    · exact alike_plainByte h b

theorem alike_foldl (h : Alike r r') (line : Bytes) :
    Alike (line.foldl (step origin) r) (line.foldl (step origin') r') := by
  induction line generalizing r r' with
  | nil => exact h
  | cons b rest ih => exact ih (alike_step h b)

theorem alike_finish (h : Alike r r') : Alike (r.finish origin) (r'.finish origin') := by
  unfold finish
  rw [h.quoted, h.word]
  split
  · split
    · exact { alike_report h _ _ with word := rfl, quoted := rfl }
    · exact h
  · exact alike_close h origin origin'

end LineReader

/-- A line has the same words wherever it stands. -/
theorem unplaced_readLine (origin origin' : LineStart) (line : Bytes) :
    (readLine origin line).toOption.map LineWords.unplaced =
      (readLine origin' line).toOption.map LineWords.unplaced := by
  have hread : LineReader.Alike ((line.foldl (LineReader.step origin) {}).finish origin)
      ((line.foldl (LineReader.step origin') {}).finish origin') :=
    LineReader.alike_finish
      (LineReader.alike_foldl ⟨rfl, rfl, rfl, rfl, rfl, rfl, rfl, rfl⟩ line)
  have hempty : ((line.foldl (LineReader.step origin) {}).finish origin).errors.isEmpty =
      ((line.foldl (LineReader.step origin') {}).finish origin').errors.isEmpty := by
    rw [Array.isEmpty, Array.isEmpty, hread.errors]
  unfold readLine
  dsimp only
  rw [hempty]
  split
  · exact congrArg some (congrArg₂ LineWords.mk hread.label hread.tokens)
  · rfl

theorem Checked.eq_ok_of_toOption {α : Type} {x : Checked α} {a : α} (h : x.toOption = some a) :
    x = .ok a := by
  cases x with
  | error errors => cases h
  | ok b =>
    cases h
    rfl

theorem readLine_elsewhere {origin : LineStart} {line : Bytes} {words : LineWords}
    (h : readLine origin line = .ok words) (origin' : LineStart) :
    ∃ words', readLine origin' line = .ok words' ∧ words'.unplaced = words.unplaced := by
  have hsame := unplaced_readLine origin' origin line
  rw [h] at hsame
  obtain ⟨words', hread, hwords⟩ := Option.map_eq_some_iff.mp hsame
  exact ⟨words', Checked.eq_ok_of_toOption hread, hwords⟩

/-! ## Operands elsewhere -/

namespace Checked

variable {α β γ : Type}

/-- Both are refused, or both are accepted with the same result. -/
def Agree (x y : Checked α) : Prop := x.toOption = y.toOption

theorem Agree.eq_ok {x y : Checked α} (h : Agree x y) {a : α} (hx : x = .ok a) : y = .ok a := by
  subst hx
  exact eq_ok_of_toOption h.symm

theorem Agree.cases {x y : Checked α} (h : Agree x y) :
    (∃ a, x = .ok a ∧ y = .ok a) ∨ ∃ e e', x = .error e ∧ y = .error e' := by
  cases x with
  | ok a => exact .inl ⟨a, rfl, h.eq_ok rfl⟩
  | error e =>
    cases y with
    | ok b => cases h
    | error e' => exact .inr ⟨e, e', rfl, rfl⟩

theorem agree_of_eq_ok {x y : Checked α} (h : ∀ a, x = .ok a → y = .ok a)
    (h' : ∀ a, y = .ok a → x = .ok a) : Agree x y := by
  cases x with
  | ok a => rw [h a rfl, Agree]
  | error e =>
    cases y with
    | ok b => cases h' b rfl
    | error e' => rfl

theorem Agree.map {x y : Checked α} (h : Agree x y) (f : α → β) : Agree (x.map f) (y.map f) := by
  obtain ⟨a, rfl, rfl⟩ | ⟨e, e', rfl, rfl⟩ := h.cases <;> rfl

theorem Agree.map₂ {x y : Checked α} {u v : Checked β} (h : Agree x y) (h' : Agree u v)
    (f : α → β → γ) : Agree (map₂ f x u) (map₂ f y v) := by
  obtain ⟨a, rfl, rfl⟩ | ⟨e, e', rfl, rfl⟩ := h.cases <;>
    obtain ⟨b, rfl, rfl⟩ | ⟨d, d', rfl, rfl⟩ := h'.cases <;> rfl

end Checked

open Checked (Agree agree_of_eq_ok)

section Operands

variable {symbols symbols' : Symbols} {t t' : Token}

theorem Token.Alike.register? (h : t.Alike t') : t.register? = t'.register? := by
  unfold Token.register?
  rw [h.kind, h.text]

theorem Token.Alike.literal? (h : t.Alike t') : t.literal? = t'.literal? := by
  unfold Token.literal?
  rw [h.kind, h.text]

theorem agree_register (h : t.Alike t') (low high : Nat) (even : Bool) :
    Agree (register t low high even) (register t' low high even) := by
  unfold register
  rw [h.register?]
  split
  · split <;> rfl
  · rfl

/-- The value of a word that is no name does not depend on names. -/
theorem agree_rawValue (h : t.Alike t')
    (hnames : t.kind = .identifier → symbols[t.text]? = symbols'[t.text]?) :
    Agree (symbols.rawValue t) (symbols'.rawValue t') := by
  have hliteral := h.literal?
  have htext := h.text
  have hkind := h.kind
  unfold Symbols.rawValue
  rw [← hkind, ← hliteral, ← htext]
  cases hk : t.kind with
  | identifier =>
    dsimp only
    rw [hnames hk]
    split <;> rfl
  | literal => dsimp only; split <;> rfl
  | character => dsimp only; split <;> rfl
  | directive => rfl
  | pointer => rfl

theorem agree_value (h : t.Alike t')
    (hnames : t.kind = .identifier → symbols[t.text]? = symbols'[t.text]?) (low high : Int) :
    Agree (symbols.value t low high) (symbols'.value t' low high) := by
  unfold Symbols.value
  obtain ⟨v, hv, hv'⟩ | ⟨e, e', he, he'⟩ := (agree_rawValue h hnames).cases
  · rw [hv, hv']
    dsimp only
    split <;> rfl
  · rw [he, he']
    rfl

theorem agree_access (h : t.Alike t') : Agree (access t) (access t') := by
  have hpointer : Agree (pointerOperand t) (pointerOperand t') := by
    unfold pointerOperand
    rw [h.kind, h.text]
    split <;> rfl
  unfold access
  obtain ⟨v, hv, hv'⟩ | ⟨e, e', he, he'⟩ := hpointer.cases
  · rw [hv, hv']
    dsimp only
    split
    all_goals try rfl
    split <;> rfl
  · rw [he, he']
    rfl

theorem agree_programPointer (h : t.Alike t') : Agree (programPointer t) (programPointer t') := by
  unfold programPointer
  rw [h.kind, h.text]
  split <;> rfl

variable (hsymbols : ∀ name : Bytes, symbols[name]? = symbols'[name]?)

include hsymbols

theorem agree_target (h : t.Alike t') : Agree (symbols.target t) (symbols'.target t') := by
  unfold Symbols.target
  obtain ⟨v, hv, hv'⟩ | ⟨e, e', he, he'⟩ :=
    (agree_value h (fun _ => hsymbols t.text) 0 0x7FFFFF).cases
  · rw [hv, hv']
    dsimp only
    split <;> rfl
  · rw [he, he']
    rfl

theorem agree_relative (h : t.Alike t') (address : UInt32) (last : Nat) :
    Agree (symbols.relative address last t) (symbols'.relative address last t') := by
  unfold Symbols.relative
  obtain ⟨v, hv, hv'⟩ | ⟨e, e', he, he'⟩ := (agree_target hsymbols h).cases
  · rw [hv, hv']
    dsimp only
    split <;> rfl
  · rw [he, he']
    rfl

/-! ## Instructions elsewhere -/

/-- The same words give the same instruction. -/
theorem instruction_of_alike {address : UInt32} {position position' : Position} {m : Mnemonic}
    {operands operands' : List Token} {instr : Instr}
    (hoperands : List.Forall₂ Token.Alike operands operands')
    (h : instruction symbols address position m operands = .ok instr) :
    instruction symbols' address position' m operands' = .ok instr := by
  have hregister {t t' : Token} (h : t.Alike t') := agree_register h 0 31 false
  have hupper {t t' : Token} (h : t.Alike t') :=
    (agree_register h 16 31 false).map fun r => wrap 15 (r.val - 16)
  have hpair {t t' : Token} (h : t.Alike t') :=
    (agree_register h 0 30 true).map fun r => wrap 15 (r.val / 2)
  have hupperPair {t t' : Token} (h : t.Alike t') :=
    (agree_register h 24 30 true).map fun r => wrap 3 ((r.val - 24) / 2)
  have hvalue {t t' : Token} (h : t.Alike t') := agree_value h fun _ => hsymbols t.text
  have hfield {t t' : Token} (h : t.Alike t') (last : Nat) :=
    (hvalue h 0 last).map fun value => wrap last value.toNat
  have hbyte {t t' : Token} (h : t.Alike t') := (hvalue h (-128) 255).map UInt8.ofInt
  have haddress {t t' : Token} (h : t.Alike t') :=
    (hvalue h 0 0xFFFF).map fun value => UInt16.ofNat value.toNat
  unfold instruction at h
  split at h
  · cases hoperands
    exact h
  · obtain _ | ⟨h₁, _ | ⟨h₂, _ | _⟩⟩ := hoperands
    exact ((hregister h₁).map₂ (hregister h₂) _).eq_ok h
  · obtain _ | ⟨h₁, _ | _⟩ := hoperands
    exact ((hregister h₁).map _).eq_ok h
  · obtain _ | ⟨h₁, _ | ⟨h₂, _ | _⟩⟩ := hoperands
    exact ((hupper h₁).map₂ (hbyte h₂) _).eq_ok h
  · obtain _ | ⟨h₁, _ | _⟩ := hoperands
    exact ((hupper h₁).map _).eq_ok h
  · obtain _ | ⟨h₁, _ | _⟩ := hoperands
    exact ((hregister h₁).map _).eq_ok h
  · obtain _ | ⟨h₁, _ | _⟩ := hoperands
    exact ((hregister h₁).map _).eq_ok h
  · obtain _ | ⟨h₁, _ | _⟩ := hoperands
    exact ((hregister h₁).map _).eq_ok h
  · obtain _ | ⟨h₁, _ | ⟨h₂, _ | _⟩⟩ := hoperands
    exact ((hpair h₁).map₂ (hpair h₂) _).eq_ok h
  · obtain _ | ⟨h₁, _ | ⟨h₂, _ | _⟩⟩ := hoperands
    exact ((hupperPair h₁).map₂ (hfield h₂ 63) _).eq_ok h
  · obtain _ | ⟨h₁, _ | _⟩ := hoperands
    exact ((agree_relative hsymbols h₁ address 4095).map _).eq_ok h
  · obtain _ | ⟨h₁, _ | _⟩ := hoperands
    exact ((agree_relative hsymbols h₁ address 4095).map _).eq_ok h
  · obtain _ | ⟨h₁, _ | _⟩ := hoperands
    exact ((agree_target hsymbols h₁).map _).eq_ok h
  · obtain _ | ⟨h₁, _ | _⟩ := hoperands
    exact ((agree_target hsymbols h₁).map _).eq_ok h
  · obtain _ | ⟨h₁, _ | _⟩ := hoperands
    exact ((agree_relative hsymbols h₁ address 127).map _).eq_ok h
  · obtain _ | ⟨h₁, _ | ⟨h₂, _ | _⟩⟩ := hoperands
    exact ((hregister h₁).map₂ (hfield h₂ 63) _).eq_ok h
  · obtain _ | ⟨h₁, _ | ⟨h₂, _ | _⟩⟩ := hoperands
    exact ((hfield h₁ 63).map₂ (hregister h₂) _).eq_ok h
  · obtain _ | ⟨h₁, _ | ⟨h₂, _ | _⟩⟩ := hoperands
    exact ((hfield h₁ 31).map₂ (hfield h₂ 7) _).eq_ok h
  · obtain _ | ⟨h₁, _ | ⟨h₂, _ | _⟩⟩ := hoperands
    exact ((hregister h₁).map₂ (hfield h₂ 7) _).eq_ok h
  · obtain _ | ⟨h₁, _ | ⟨h₂, _ | _⟩⟩ := hoperands
    exact ((hregister h₁).map₂ (haddress h₂) _).eq_ok h
  · obtain _ | ⟨h₁, _ | ⟨h₂, _ | _⟩⟩ := hoperands
    exact ((haddress h₁).map₂ (hregister h₂) _).eq_ok h
  · obtain _ | ⟨h₁, _ | ⟨h₂, _ | _⟩⟩ := hoperands
    exact ((hregister h₁).map₂ (agree_access h₂) _).eq_ok h
  · obtain _ | ⟨h₁, _ | ⟨h₂, _ | _⟩⟩ := hoperands
    exact ((agree_access h₁).map₂ (hregister h₂) _).eq_ok h
  · cases hoperands
    exact h
  · obtain _ | ⟨h₁, _ | ⟨h₂, _ | _⟩⟩ := hoperands
    split at h
    · cases h
    · rename_i hfound
      have hfound' : anyRegister _ = .ok _ := (hregister h₁).eq_ok hfound
      simp only [instruction, hfound']
      exact ((agree_programPointer h₂).map _).eq_ok h
  · cases h

end Operands

/-- Both layouts know the same names. -/
structure Layout.SameNames (l l' : Layout) : Prop where
  symbols : ∀ name : Bytes, l.symbols[name]? = l'.symbols[name]?
  labels : ∀ name : Bytes, l.labels[name]? = l'.labels[name]?

theorem Layout.SameNames.symm {l l' : Layout} (h : l.SameNames l') : l'.SameNames l :=
  ⟨fun name => (h.symbols name).symm, fun name => (h.labels name).symm⟩

theorem agree_instruction {l l' : Layout} (hl : l.SameNames l') (address : UInt32)
    (position position' : Position) (m : Mnemonic) {operands operands' : List Token}
    (h : operands.map Token.unplaced = operands'.map Token.unplaced) :
    Agree (instruction l.symbols address position m operands)
      (instruction l'.symbols address position' m operands') :=
  agree_of_eq_ok (fun _ => instruction_of_alike hl.symbols (forall₂_alike_iff.mpr h))
    fun _ => instruction_of_alike hl.symm.symbols (forall₂_alike_iff.mpr h.symm)

theorem agree_wordValue {l l' : Layout} (hl : l.SameNames l') {t t' : Token} (h : t.Alike t') :
    Agree (l.wordValue t) (l'.wordValue t') := by
  unfold Layout.wordValue
  rw [← h.kind, ← h.text, hl.labels]
  split
  · rfl
  · exact (agree_value h (fun _ => hl.symbols t.text) _ _).map _

/-- A word with its address, or that there is none. -/
def settled (item : UInt32 × Checked UInt16) : UInt32 × Option UInt16 := (item.1, item.2.toOption)

theorem map_settled_placed (address : UInt32) (words : List (Checked UInt16)) :
    (placed address words).map settled = placed address (words.map Except.toOption) := by
  unfold placed
  rw [List.zipIdx_map, List.map_map, List.map_map]
  rfl

/-- The words of a statement and their addresses are the same wherever it stands. -/
theorem settled_items {l l' : Layout} (hl : l.SameNames l') {s s' : Statement}
    (hs : s.unplaced = s'.unplaced) : (s.items l).map settled = (s'.items l').map settled := by
  obtain ⟨keyword, operands, address, action⟩ := s
  obtain ⟨keyword', operands', address', action'⟩ := s'
  simp only [Statement.unplaced, Statement.mk.injEq] at hs
  obtain ⟨-, hoperands, rfl, rfl⟩ := hs
  cases action with
  | words =>
    have hwords : (operands.map l.wordValue).map Except.toOption =
        (operands'.map l'.wordValue).map Except.toOption := by
      rw [List.map_map, List.map_map, ← List.forall₂_eq_eq_eq, List.forall₂_map_left_iff,
        List.forall₂_map_right_iff]
      exact (forall₂_alike_iff.mpr hoperands).imp fun _ _ => agree_wordValue hl
    simp only [Statement.items]
    rw [map_settled_placed, map_settled_placed, hwords]
  | instruction m =>
    simp only [Statement.items]
    obtain ⟨instr, hinstr, hinstr'⟩ | ⟨e, e', he, he'⟩ :=
      (agree_instruction hl address keyword.position keyword'.position m hoperands).cases
    · rw [hinstr, hinstr']
    · rw [he, he']
      rfl

end AvrSim.Asm
