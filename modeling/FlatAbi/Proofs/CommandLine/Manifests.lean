import FlatAbi.Proofs.CommandLine.Effects
import FlatAbi.Proofs.Files.AtomicWrite

/-!
Manifests are ASCII. They can be encoded whatever is in them, and written wherever there is room for a file.
-/

namespace FlatAbi

open List Text

def Text.IsAscii (cs : List Char) : Prop :=
  ∀ c ∈ cs, c.toNat < 0x80

namespace Text.IsAscii

variable {cs ds : List Char}

@[simp] theorem nil : IsAscii [] := forall_mem_nil _

@[simp] theorem cons_iff {c : Char} : IsAscii (c :: cs) ↔ c.toNat < 0x80 ∧ IsAscii cs := forall_mem_cons

@[simp] theorem append_iff : IsAscii (cs ++ ds) ↔ IsAscii cs ∧ IsAscii ds := forall_mem_append

theorem of_subset (ascii : IsAscii ds) (within : cs ⊆ ds) : IsAscii cs :=
  fun c listed => ascii c (within listed)

theorem replicate (n : Nat) {c : Char} (ascii : c.toNat < 0x80) : IsAscii (List.replicate n c) :=
  forall_mem_replicate.mpr (.inr ascii)

@[simp] theorem toDigits (n : Nat) : IsAscii (Nat.toDigits 10 n) := by
  intro c listed
  have range : 48 ≤ c.toNat ∧ c.toNat ≤ 57 :=
    Char.isDigit_iff_toNat.mp (Nat.isDigit_of_mem_toDigits (by decide) (by decide) listed)
  omega

@[simp] theorem hex (width n : Nat) : IsAscii (Quoted.hex width n) := by
  have digit : ∀ n < 16, (Quoted.hexDigit n).toNat < 0x80 := by decide
  induction width generalizing n with
  | zero => exact nil
  | succ width ih => simp [Quoted.hex, ih, digit (n % 16) (by omega)]

theorem join {separator : String} {pieces : List String} (between : IsAscii separator.toList)
    (each : ∀ piece ∈ pieces, IsAscii piece.toList) : IsAscii (Text.join separator pieces).toList := by
  fun_induction Text.join separator pieces with
  | case1 => exact nil
  | case2 piece => exact each piece (by simp)
  | case3 piece next rest ih => simp_all

theorem isEncodable {s : String} (ascii : IsAscii s.toList) : Units.isEncodable s := by
  refine all_eq_true.mpr fun c listed => ?_
  have small := ascii c listed
  have offset : c.toNat - 0xF0000 = 0 := by omega
  rw [Units.broken?, Units.privateOffset, offset]
  rfl

theorem unixLines (ascii : IsAscii cs) : IsAscii (Text.unixLines cs) := by
  fun_induction Text.unixLines cs with
  | case1 => exact ascii
  | case2 cs ih => simp_all
  | case3 c cs _ ih =>
    obtain ⟨first, rest⟩ := cons_iff.mp ascii
    refine cons_iff.mpr ⟨?_, ih rest⟩
    split
    · decide
    · exact first

end Text.IsAscii

theorem Shortest.isAscii_text (negative : Bool) (mantissa : Nat) (exponent : Int) :
    IsAscii (text negative mantissa exponent).toList := by
  have kept : IsAscii (digits mantissa exponent).1 := fun c listed =>
    IsAscii.toDigits _ c (mem_reverse.mp ((dropWhile_sublist _).subset (mem_reverse.mp listed)))
  rw [text, String.toList_ofList, IsAscii.append_iff]
  refine ⟨by cases negative <;> simp, ?_⟩
  split
  · simp
  generalize digits mantissa exponent = found at kept
  obtain ⟨ds, point⟩ := found
  dsimp only at kept ⊢
  split
  · unfold withExponent digitsOf
    dsimp only
    split <;> split <;> split <;> simp_all
  · have front := kept.of_subset (take_subset point.toNat ds)
    have behind := kept.of_subset (drop_subset point.toNat ds)
    unfold positional
    split_ifs <;> simp [kept, front, behind, IsAscii.replicate]

namespace Json

theorem isAscii_escapeChar (c : Char) : IsAscii (escapeChar c) := by
  have unit (n : Nat) : IsAscii (escapeUnit n) := by simp [escapeUnit]
  unfold escapeChar
  iterate 7 (split; · simp)
  split
  next plain =>
    have range : 0x20 ≤ c.toNat ∧ c.toNat < 0x7F := by simpa using plain
    simp only [IsAscii.cons_iff, IsAscii.nil, and_true]
    omega
  repeat' split
  all_goals simp [unit]

theorem isAscii_quote (s : String) : IsAscii (quote s).toList := by
  have escaped : IsAscii (s.toList.flatMap escapeChar) := by
    intro c listed
    obtain ⟨d, _, inside⟩ := mem_flatMap.mp listed
    exact isAscii_escapeChar d c inside
  simp [quote, escaped]

theorem isAscii_scalar (v : Value) : IsAscii (scalar v).toList := by
  cases v with
  | null | array | object => simp [scalar]
  | bool b => cases b <;> simp [scalar]
  | int n => cases n <;> simp [scalar, toString, Int.repr, Nat.repr]
  | float x =>
    rw [scalar]
    cases x.parts with
    | finite negative mantissa exponent => exact Shortest.isAscii_text negative mantissa exponent
    | infinite negative => cases negative <;> simp
    | notANumber => simp
  | string s => exact isAscii_quote s

theorem isAscii_newline (level : Nat) : IsAscii (newline level).toList := by
  simp [newline, IsAscii.replicate]

theorem isAscii_indented (level : Nat) (v : Value) : IsAscii (indented level v).toList := by
  refine indented.induct (fun level v => IsAscii (indented level v).toList)
    (fun level fields => ∀ piece ∈ indentedFields level fields, IsAscii piece.toList)
    (fun level items => ∀ piece ∈ indentedItems level items, IsAscii piece.toList) ?_ ?_ ?_ ?_ ?_ ?_ ?_ ?_ ?_ level v
  · simp [indented]
  · intro level items filled inside
    obtain ⟨first, rest, rfl⟩ := exists_cons_of_ne_nil filled
    simp [indented, isAscii_newline, IsAscii.join _ inside]
  · simp [indented]
  · intro level fields filled inside
    obtain ⟨first, rest, rfl⟩ := exists_cons_of_ne_nil filled
    simp [indented, isAscii_newline, IsAscii.join _ inside]
  · intro level v _ notArray _ notObject
    cases v with
    | array items => exact (notArray items rfl).elim
    | object fields => exact (notObject fields rfl).elim
    | _ => exact isAscii_scalar _
  · simp [indentedItems]
  · intro level item rest first others
    exact forall_mem_cons.mpr ⟨first, others⟩
  · simp [indentedFields]
  · intro level key v rest first others
    exact forall_mem_cons.mpr ⟨by simp [isAscii_quote, first], others⟩

end Json

theorem Manifest.isEncodable_text (host : Host) (words : List String) (input outputDir : Path) (config : Config)
    (draft : Draft) : Units.isEncodable (normalizeNewlines (text host words input outputDir config draft)) := by
  refine IsAscii.isEncodable ?_
  rw [normalizeNewlines, String.toList_ofList]
  exact .unixLines (by simp [text, Json.isAscii_indented])

/-- A run that is done without a manifest is done with one too, if there is room for it. -/
theorem CommandLine.Works.with_manifest {s : Setting} {o : Options} {before after : FileTree} {code : Nat}
    (works : Works s { o with noManifest := true } before code after)
    (room : ∀ text, Units.isEncodable text →
      FileWork.Ready after ((s.directory.resolve o.outputDir.orEmpty).append manifestName) text) :
    ∃ last, Works s { o with noManifest := false } before code last := by
  cases works with
  | @intro _ _ g generated gathers texts makes writes =>
    obtain ⟨gathers, placed⟩ : Gathers s { o with noManifest := false } before g ∧
        g.directory = s.directory.resolve o.outputDir.orEmpty := by
      cases gathers with
      | intro equipped given loads imports placed emits =>
        exact ⟨.intro equipped given loads imports placed emits, placed.eq⟩
    rw [← placed] at room
    obtain ⟨written, last, manifest⟩ := (room _
      (Manifest.isEncodable_text s.host s.words g.input g.directory g.config g.draft)).write_completes true true
    cases writes with
    | cons _ header writes =>
      cases writes with
      | cons _ source writes =>
        cases writes
        exact ⟨last, .intro gathers texts makes (.cons _ header (.cons _ source (.cons written manifest .nil)))⟩

end FlatAbi
