import AvrSim.Cli.Assemble
import AvrSim.Harness.Basic
import AvrSim.Proofs.Asm.Image
import AvrSim.Proofs.Hex.RoundTrip

/-!
# From a source to the flash

The size of a firmware is looked at twice on its way: the reader refuses a span that is longer than the
flash, wherever it lies, and the flash refuses bytes that end behind it. What was assembled ends within
the address space, so its file is read as one tiling of its bytes, and the two tests together refuse
exactly the programs that do not fit.

* `Hex.parse_written`: reading back a written file under a limit.
* `Harness.load_written`: loading a written file.
* `Harness.load_assembled`: loading the file of an assembled source.
-/

namespace AvrSim

/-! ## Reading back under a limit -/

namespace Hex

theorem Reader.finish_eq_of_tiling {reader : Reader} (limit : Nat) {base : UInt32}
    {data : List UInt8} (h : Tiling base.toNat reader.chunks.toList data) (hne : data ≠ [])
    (stop : Nat) :
    reader.finish limit stop =
      if limit < data.length then
        .error ⟨stop, .tooLarge base.toNat (base.toNat + data.length) limit⟩
      else .ok ⟨base, data.toArray, reader.start⟩ := by
  unfold finish
  generalize reader.chunks.toList = chunks at h
  cases chunks with
  | nil =>
    cases h
    exact absurd rfl hne
  | cons first rest =>
    dsimp only
    rw [flatten_eq_of_tiling limit h]
    by_cases hlimit : limit < data.length
    · rw [if_pos hlimit, if_pos hlimit]
    · rw [if_neg hlimit, if_neg hlimit]
      dsimp only
      rw [UInt32.ofNat_toNat]

/-- A written file is read back unless its data is longer than the limit; then the line of the last
record is to blame. -/
theorem parse_written (limit : Nat) (base : UInt32) {data : List UInt8} (width : Int)
    (hne : data ≠ []) (hspace : base.toNat + data.length ≤ addressLimit) :
    ∃ stop, Image.parse limit (encode base data width) =
      if limit < data.length then
        .error ⟨stop, .tooLarge base.toNat (base.toNat + data.length) limit⟩
      else .ok ⟨base, data.toArray, none⟩ := by
  obtain ⟨written, hrecords, hcovers⟩ := records_covers base data width hspace
  have hlength : ∀ r ∈ written ++ [.last], r.payload.length ≤ 255 :=
    List.forall_mem_append.mpr ⟨hcovers.length_payload, by decide⟩
  obtain ⟨chunks, final, stop, htiling, hchunks, hstart, hrun⟩ :=
    Reader.run_of_covers {} limit false hcovers rfl 0
  refine ⟨stop, ?_⟩
  have hfinal : Tiling base.toNat final.chunks.toList data := by
    rw [hchunks]
    exact htiling
  unfold Image.parse encode
  rw [hrecords, lines_flatMap_render hlength]
  dsimp only
  rw [hrun, Reader.finish_eq_of_tiling limit hfinal hne, hstart]

end Hex

/-! ## Loading -/

namespace Harness

/-- A program stands in the flash of a machine, which is otherwise as before, and the core is about to
run it. -/
structure Installed (base : UInt32) (data : Array UInt8) (before after : Machine) : Prop where
  size : after.flash.size = before.flash.size
  stored : ∀ i, ∀ hi : i < data.size, after.flash.get (base.toNat + i) = data[i]
  others : ∀ a, a < base.toNat ∨ base.toNat + data.size ≤ a →
    after.flash.get a = before.flash.get a
  program : after.program = base
  codeEnd : after.codeEnd = before.model.flashEnd

theorem install_eq (m : Machine) (path : String) (image : Hex.Image) :
    (∃ after, Installed image.base image.data m after ∧
        image.base.toNat + image.data.size ≤ m.flash.size ∧ install m path image = .ok after) ∨
      (m.flash.size < image.base.toNat + image.data.size ∧ install m path image =
        .error ⟨path, 0, .flash ⟨image.data.size, image.base.toNat, m.flash.size⟩⟩) := by
  unfold install Machine.loadFlash
  rw [Array.length_toList]
  by_cases hfits : m.flash.size < image.base.toNat + image.data.size
  · rw [if_pos hfits]
    exact .inr ⟨hfits, rfl⟩
  · rw [if_neg hfits]
    have hbytes : image.base.toNat + image.data.toList.length ≤ m.flash.size := by
      rw [Array.length_toList]
      omega
    refine .inl ⟨_, ⟨Memory.size_store .., ?_, ?_, rfl, rfl⟩, by omega, rfl⟩
    · intro i hi
      refine (Memory.get_store _ _ _ _ hbytes).trans ?_
      rw [Array.length_toList, if_pos (by omega), Nat.add_sub_cancel_left]
      simp [hi]
    · intro a ha
      refine (Memory.get_store _ _ _ _ hbytes).trans ?_
      rw [Array.length_toList, if_neg (by omega)]

/-- The harness after an attempt to load a firmware. -/
def afterLoad (h : Harness) (files : Files) (path : String) : Harness :=
  match h.load files path with
  | .ok (_, loaded) => loaded
  | .error _ => h

/-- A harness whose flash has the size that its part has and that waits for a firmware. -/
structure Fresh (h : Harness) : Prop where
  phase : h.phase = .initializing
  flash : h.machine.flash.size = h.machine.model.flashSize

theorem fresh_of_create {config : Config} {input : Option (List Poll)} {journal : Journal}
    {h : Harness} (hcreate : create config input journal = .ok h) : h.Fresh := by
  unfold create Machine.createNamed at hcreate
  cases hmodel : Model.find? config.mcu with
  | none =>
    rw [hmodel] at hcreate
    cases hcreate
  | some model =>
    rw [hmodel] at hcreate
    cases hcreate
    exact ⟨rfl, Array.size_replicate⟩

/-- Loading is reading and installing. -/
theorem load_eq {h : Harness} (hfresh : h.Fresh) {files : Files} {path : String} {text : Bytes}
    (hfile : files.read path = .ok text) :
    h.load files path =
      match Hex.Image.parse h.machine.model.flashSize text with
      | .error failure => .error (.load ⟨path, failure.line, .hex failure.fault⟩)
      | .ok image =>
        match install h.machine path image with
        | .error e => .error (.load e)
        | .ok after =>
          .ok (image, { h with bench := { h.bench with machine := after }, phase := .ready }) := by
  have hexpect : h.expect .load = .ok () := by
    unfold expect
    rw [hfresh.phase]
    rfl
  unfold load Hex.Image.load Hex.Image.parseAt
  rw [hexpect, hfile]
  dsimp only
  cases Hex.Image.parse h.machine.model.flashSize text with
  | error failure => rfl
  | ok image =>
    change (Except.mapError HarnessError.load (install h.machine path image) >>= _) = _
    dsimp only
    cases install h.machine path image with
    | error e => rfl
    | ok after => rfl

/-- What loading the file of a program comes to: the reader looks at the length of its data and the
flash at its end. -/
theorem load_written {h : Harness} (hfresh : h.Fresh) {base : UInt32} {data : Array UInt8}
    {width : Int} (hne : 0 < data.size) (hspace : base.toNat + data.size ≤ Hex.addressLimit)
    {files : Files} {path : String}
    (hfile : files.read path = .ok (Hex.encode base data.toList width)) :
    (base.toNat + data.size ≤ h.machine.model.flashSize ∧
      ∃ after, Installed base data h.machine after ∧
        h.load files path = .ok (⟨base, data, none⟩,
          { h with bench := { h.bench with machine := after }, phase := .ready })) ∨
    (h.machine.model.flashSize < base.toNat + data.size ∧
      ∃ line cause, h.load files path = .error (.load ⟨path, line, cause⟩) ∧
        cause =
          if h.machine.model.flashSize < data.size then
            .hex (.tooLarge base.toNat (base.toNat + data.size) h.machine.model.flashSize)
          else .flash ⟨data.size, base.toNat, h.machine.model.flashSize⟩) := by
  have hlist : data.toList ≠ [] := by
    intro hnil
    rw [← Array.length_toList, hnil] at hne
    exact Nat.lt_irrefl 0 hne
  obtain ⟨stop, hparse⟩ := Hex.parse_written h.machine.model.flashSize base width hlist
    (by rw [Array.length_toList]; exact hspace)
  rw [Array.length_toList] at hparse
  rw [load_eq hfresh hfile, hparse]
  by_cases hlength : h.machine.model.flashSize < data.size
  · rw [if_pos hlength, if_pos hlength]
    exact .inr ⟨by omega, stop, _, rfl, rfl⟩
  · rw [if_neg hlength, if_neg hlength]
    dsimp only
    rcases install_eq h.machine path ⟨base, data, none⟩ with
      ⟨after, hinstalled, hfits, hinstall⟩ | ⟨hfits, hinstall⟩
    · rw [hinstall]
      rw [hfresh.flash] at hfits
      exact .inl ⟨hfits, after, hinstalled, rfl⟩
    · rw [hinstall, hfresh.flash]
      rw [hfresh.flash] at hfits
      exact .inr ⟨hfits, 0, _, rfl, rfl⟩

/-! ## Assembled firmware -/

/-- The assembler program and the loader agree about every source that has a program: the file it
writes is loaded exactly if the program fits into the flash, and then the flash holds the program where
the source put it. Otherwise the length or the end of the program is to blame and nothing changes. -/
theorem load_assembled {source : Bytes} {program : Asm.Program}
    (hprogram : Asm.assemble source = .ok program) (request : Cli.Assemble.Request)
    {config : Config} {input : Option (List Poll)} {journal : Journal} {h : Harness}
    (hcreate : create config input journal = .ok h) {files : Files} {path : String}
    (hfile : files.read path =
      .ok (Hex.encode program.base program.data.toList request.width)) :
    (∀ (env : Cli.Environment) (written : Files),
      env.files.write request.outputPath
        (Hex.encode program.base program.data.toList request.width) = .ok written →
      Cli.Assemble.build request env source = { files := written }) ∧
    ((h.load files path).isOk ↔
      program.base.toNat + program.data.size ≤ h.machine.model.flashSize) ∧
    (∀ image loaded, h.load files path = .ok (image, loaded) →
      image = ⟨program.base, program.data, none⟩ ∧
      Installed program.base program.data h.machine loaded.machine ∧ loaded.phase = .ready) ∧
    ∀ error, h.load files path = .error error →
      (∃ line cause, error = .load ⟨path, line, cause⟩ ∧
        ((∃ low high limit, cause = .hex (.tooLarge low high limit)) ∨
          ∃ overflow, cause = .flash overflow)) ∧
      h.afterLoad files path = h := by
  obtain ⟨hne, hspace⟩ := Asm.assemble_span hprogram
  refine ⟨?_, ?_⟩
  · intro env written hwritten
    unfold Cli.Assemble.build
    rw [hprogram]
    dsimp only
    rw [hwritten]
  · rcases load_written (fresh_of_create hcreate) hne hspace hfile with
      ⟨hfits, after, hinstalled, hload⟩ | ⟨hfits, line, cause, hload, hcause⟩
    · rw [hload]
      refine ⟨iff_of_true rfl hfits, ?_, ?_⟩
      · intro image loaded hok
        cases hok
        exact ⟨rfl, hinstalled, rfl⟩
      · intro error herror
        cases herror
    · unfold afterLoad
      rw [hload]
      refine ⟨iff_of_false (by simp [Except.isOk, Except.toBool]) (Nat.not_le.mpr hfits), ?_, ?_⟩
      · intro image loaded hok
        cases hok
      · intro error herror
        cases herror
        refine ⟨⟨line, cause, rfl, ?_⟩, rfl⟩
        rw [hcause]
        split
        · exact .inl ⟨_, _, _, rfl⟩
        · exact .inr ⟨_, rfl⟩

/-- A source of one word at 16. -/
def wordSource : Bytes := Bytes.ofString ".org 16\n.word 4660"

/-- The operand of the source. -/
def wordOperand : Asm.Token := ⟨.literal, ⟨2, 7, 14, 4, 8⟩, Bytes.ofString "4660"⟩

/-- What is assembled from the source. -/
def wordProgram : Asm.Program := ⟨16, #[0x34, 0x12], (Asm.Layout.ofSource wordSource).labels⟩

theorem wordValue_wordOperand (l : Asm.Layout) : l.wordValue wordOperand = .ok 0x1234 := by
  have hliteral : wordOperand.literal? = some 0x1234 := by decide +kernel
  unfold Asm.Layout.wordValue Asm.Symbols.value Asm.Symbols.rawValue
  rw [hliteral]
  rfl

/-- The statement of the source. -/
def wordStatement : Asm.Statement :=
  ⟨⟨.directive, ⟨2, 1, 8, 5, 8⟩, Bytes.ofString ".word"⟩, [wordOperand], 16, .words⟩

theorem assemble_wordSource : Asm.assemble wordSource = .ok wordProgram := by
  have herrors : (Asm.Layout.ofSource wordSource).errors = #[] := by decide +kernel
  have hstatements : (Asm.Layout.ofSource wordSource).statements = #[wordStatement] := by
    decide +kernel
  have hitems (l : Asm.Layout) : wordStatement.items l = [(16, .ok 0x1234)] := by
    simp [Asm.Statement.items, wordStatement, Asm.placed, wordValue_wordOperand]
  exact Asm.assemble_of_word herrors hstatements (hitems _)

/-- The file that the assembler program writes. -/
def wordFiles : Files := { entries := [("w.hex", Hex.encode 16 [0x34, 0x12] 16)] }

theorem read_wordFiles : wordFiles.read "w.hex" = .ok (Hex.encode 16 [0x34, 0x12] 16) := by
  have hread : (wordFiles.read "w.hex").toOption = some (Hex.encode 16 [0x34, 0x12] 16) := by
    decide +kernel
  cases h : wordFiles.read "w.hex" with
  | error e =>
    rw [h] at hread
    cases hread
  | ok text =>
    rw [h] at hread
    cases hread
    rfl

/-- The word is loaded into a small part. -/
theorem load_wordFiles : ∃ h : Harness,
    Asm.assemble wordSource = .ok wordProgram ∧
    create { mcu := "atmega48" } none { threshold := none } = .ok h ∧
    wordFiles.read "w.hex" = .ok (Hex.encode 16 [0x34, 0x12] 16) ∧
    ∃ image loaded, h.load wordFiles "w.hex" = .ok (image, loaded) ∧
      Installed 16 #[0x34, 0x12] h.machine loaded.machine ∧ loaded.phase = .ready := by
  have hmodel : Model.find? "atmega48" = some .atmega48 := by decide +kernel
  have hcreate : ∃ h, create { mcu := "atmega48" } none { threshold := none } = .ok h ∧
      h.machine.model = .atmega48 := by
    unfold create Machine.createNamed
    rw [hmodel]
    exact ⟨_, rfl, rfl⟩
  obtain ⟨h, hcreate, hpart⟩ := hcreate
  obtain ⟨-, hfits, hloaded, -⟩ :=
    load_assembled assemble_wordSource ⟨none, "w.hex", 16⟩ hcreate read_wordFiles
  refine ⟨h, assemble_wordSource, hcreate, read_wordFiles, ?_⟩
  have hok : (h.load wordFiles "w.hex").isOk = true := by
    rw [hfits, hpart]
    decide
  cases hload : h.load wordFiles "w.hex" with
  | error e =>
    rw [hload] at hok
    cases hok
  | ok result =>
    exact ⟨result.1, result.2, rfl, (hloaded _ _ hload).2⟩

end Harness

end AvrSim
