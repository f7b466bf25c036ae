import ContractFuzz.Graph.ControlFlow
import ContractFuzz.Proofs.Numeral.Padded
import ContractFuzz.Proofs.Outcome
/-!
# Reading a decompiler's output

The graph of a decompiler's output is that of the blocks whose program counters it shows. How these
are written does not matter: in decimal or in hexadecimal, with digits of either case, with zeros
before them and blanks around them. There is no graph if one of the texts is no program counter,
and the failure names the first of these.

## Main definitions

* `PcNumeral`, `WritesPc` : the texts for a number.
* `DecompiledBlock.Shows` : a block of the output is written for a basic block.
* `DecompiledBlock.pcTexts`, `FirstRejected` : the texts that are read, and the failure that they
  lead to.

## Main results

* `readPc_of_writesPc` : what is read from the text for a number.
* `ControlFlowGraph.ofDecompiled_of_shows` : reading undoes writing.
* `ControlFlowGraph.firstRejected_ofDecompiled` : when there is no graph, and why.
* `ControlFlowGraph.ofDecompiled_exact` : all of it in one statement.
-/

namespace ContractFuzz

/-! ### Program counters -/

/-- A number in decimal, or in hexadecimal after a mark. -/
inductive PcNumeral (n : Nat) : List Char → Prop
  | decimal {cs : List Char} (digits : Text.Padded 10 n cs) : PcNumeral n cs
  | hexadecimal {cs : List Char} {x : Char} (mark : x = 'x' ∨ x = 'X')
      (digits : Text.Padded 16 n cs) : PcNumeral n ('0' :: x :: cs)

/-- A text for a number: a numeral with blanks around it, or without. -/
def WritesPc (n : Nat) (raw : String) : Prop :=
  ∃ before numeral after, raw.toList = before ++ numeral ++ after ∧
    (∀ c ∈ before ++ after, Text.isBlank c = true) ∧ PcNumeral n numeral

variable {n : Nat} {cs : List Char} {raw : String}

/-- There are no blanks in a numeral. -/
theorem PcNumeral.isBlank_eq_false (h : PcNumeral n cs) {c : Char} (hc : c ∈ cs) :
    Text.isBlank c = false := by
  have digit {base : Nat} {digits : List Char} (large : 1 < base) (small : base ≤ 16)
      (hdigits : Text.Padded base n digits) (hc : c ∈ digits) : Text.isBlank c = false := by
    obtain ⟨d, hd⟩ := hdigits.exists_isDigit large small hc
    exact hd.isBlank_eq_false small
  cases h with
  | decimal digits => exact digit (by decide) (by decide) digits hc
  | hexadecimal mark digits =>
    rcases List.mem_cons.mp hc with rfl | hc
    · decide
    rcases List.mem_cons.mp hc with rfl | hc
    · rcases mark with rfl | rfl <;> decide
    · exact digit (by decide) (by decide) digits hc

/-- The numeral is all that is read of a text. -/
theorem PcNumeral.readPc?_eq (h : PcNumeral n cs) (htrim : Text.trimBlanks raw.toList = cs) :
    readPc? raw = if n < UInt64.size then some (UInt64.ofNat n) else none := by
  have hmap : (if n < UInt64.size then some n else none).map UInt64.ofNat =
      if n < UInt64.size then some (UInt64.ofNat n) else none := by
    split <;> rfl
  unfold readPc?
  rw [htrim, ← hmap]
  cases h with
  | hexadecimal mark digits =>
    have hread := Text.readBounded_of_padded (by decide) (by decide) digits UInt64.size
    rcases mark with rfl | rfl <;> exact congrArg (Option.map UInt64.ofNat) hread
  | decimal digits =>
    have unmarked {x : Char} {r : List Char} (hx : ∀ d : Fin 10, x.toLower ≠ Nat.digitChar d)
        (heq : cs = '0' :: x :: r) : False := by
      obtain ⟨d, hd⟩ := digits.exists_isDigit (c := x) (by decide) (by decide) (by simp [heq])
      exact hx ⟨d, hd.1⟩ hd.2
    dsimp only
    split
    · exact (unmarked (by decide) rfl).elim
    · exact (unmarked (by decide) rfl).elim
    · rw [Text.readBounded_of_padded (by decide) (by decide) digits]

/-- A number that fits into a program counter is read from every text for it, and a greater one from
none. -/
theorem readPc_of_writesPc (h : WritesPc n raw) :
    readPc raw = if n < UInt64.size then .ok (UInt64.ofNat n)
      else .error (.malformedGraph (Text.trim raw)) := by
  obtain ⟨before, numeral, after, hraw, blank, hnumeral⟩ := h
  have htrim : Text.trimBlanks raw.toList = numeral := by
    refine (Text.trimmed_iff.mp ⟨⟨before, after, hraw, blank⟩, fun c hc => ?_, fun c hc => ?_⟩).symm
    · exact hnumeral.isBlank_eq_false (List.mem_of_mem_head? hc)
    · exact hnumeral.isBlank_eq_false (List.mem_of_getLast? hc)
  rw [readPc, hnumeral.readPc?_eq htrim]
  by_cases hsize : n < UInt64.size
  · simp only [if_pos hsize]
  · simp only [if_neg hsize]

/-! ### Blocks -/

/-- A block of the output is written for a basic block. Its instructions may come in any order; of
several at one program counter the last counts. -/
structure DecompiledBlock.Shows (d : DecompiledBlock) (b : BasicBlock) : Prop where
  pc : WritesPc b.pc.toNat d.pc
  instructions : ∃ listing, SortedMap.ofList listing = b.instructions ∧
    List.Forall₂ (fun i e => WritesPc e.1.toNat i.pc ∧ i.op = e.2) d.instructions listing
  successors : List.Forall₂ (fun text pc => WritesPc pc.toNat text) d.successors b.successors

theorem readPc_of_writesPc_toNat {pc : Pc} (h : WritesPc pc.toNat raw) : readPc raw = .ok pc := by
  rw [readPc_of_writesPc h, if_pos pc.toNat_lt, UInt64.ofNat_toNat]

theorem DecompiledBlock.read_of_shows {d : DecompiledBlock} {b : BasicBlock} (h : d.Shows b) :
    d.read = .ok b := by
  obtain ⟨listing, hlisting, hinstructions⟩ := h.instructions
  refine bind_eq_ok_iff.mpr ⟨listing, mapM_eq_ok_iff.mpr (hinstructions.imp fun i e hi => ?_), ?_⟩
  · exact bind_eq_ok_iff.mpr ⟨e.1, readPc_of_writesPc_toNat hi.1, by rw [hi.2]; rfl⟩
  refine bind_eq_ok_iff.mpr ⟨b.successors, mapM_eq_ok_iff.mpr (h.successors.imp fun _ _ => ?_), ?_⟩
  · exact readPc_of_writesPc_toNat
  · exact bind_eq_ok_iff.mpr ⟨b.pc, readPc_of_writesPc_toNat h.pc, by rw [hlisting]; rfl⟩

/-- Reading undoes writing. -/
theorem ControlFlowGraph.ofDecompiled_of_shows {decompiled : List DecompiledBlock}
    {blocks : List BasicBlock} (h : List.Forall₂ DecompiledBlock.Shows decompiled blocks) :
    ofDecompiled decompiled = .ok (ofBlocks blocks) := by
  have hread : decompiled.mapM DecompiledBlock.read = .ok blocks :=
    mapM_eq_ok_iff.mpr (h.imp fun _ _ => DecompiledBlock.read_of_shows)
  rw [ofDecompiled, hread]
  rfl

/-! ### Failures -/

/-- Whether a text is no program counter. -/
def rejectsPc (raw : String) : Bool := !(readPc raw).isOk

theorem rejectsPc_iff : rejectsPc raw = true ↔ ∃ e, readPc raw = .error e := by
  rw [rejectsPc]
  cases readPc raw <;> simp [Except.isOk, Except.toBool]

/-- A computation fails exactly if one of the texts is no program counter, and it names the first
of them. -/
def FirstRejected {α : Type} (texts : List String) (r : Except Failure α) : Prop :=
  ∀ e, r = .error e ↔ ∃ text, texts.find? rejectsPc = some text ∧
    e = .malformedGraph (Text.trim text)

section FirstRejected

variable {α β : Type} {texts texts' : List String}

theorem firstRejected_pure (a : α) : FirstRejected [] (.ok a : Except Failure α) := fun e => by
  simp

theorem firstRejected_readPc (raw : String) : FirstRejected [raw] (readPc raw) := by
  intro e
  simp only [List.find?_singleton, Option.ite_none_right_eq_some, rejectsPc_iff]
  unfold readPc
  cases readPc? raw <;> simp [eq_comm]

/-- What is read first is rejected first. -/
theorem FirstRejected.bind {x : Except Failure α} {f : α → Except Failure β}
    (h : FirstRejected texts x) (next : ∀ a, FirstRejected texts' (f a)) :
    FirstRejected (texts ++ texts') (x >>= f) := by
  intro e
  rw [List.find?_append]
  cases x with
  | error e' =>
    obtain ⟨text, hfind, rfl⟩ := (h e').mp rfl
    rw [hfind, Option.some_or]
    change (Except.error _ : Except Failure β) = .error e ↔ _
    simp [eq_comm]
  | ok a =>
    have hnone : texts.find? rejectsPc = none := by
      cases hfind : texts.find? rejectsPc with
      | none => rfl
      | some text => cases (h _).mpr ⟨text, hfind, rfl⟩
    rw [hnone]
    exact next a e

theorem firstRejected_mapM {f : α → Except Failure β} {textsOf : α → List String}
    (h : ∀ a, FirstRejected (textsOf a) (f a)) (l : List α) :
    FirstRejected (l.flatMap textsOf) (l.mapM f) := by
  induction l with
  | nil => exact firstRejected_pure []
  | cons a l ih =>
    rw [List.mapM_cons, List.flatMap_cons, ← List.append_nil (l.flatMap textsOf)]
    exact (h a).bind fun b => ih.bind fun bs => firstRejected_pure (b :: bs)

end FirstRejected

/-- The texts that stand for program counters in a block, in the order in which they are read. -/
def DecompiledBlock.pcTexts (d : DecompiledBlock) : List String :=
  d.instructions.map (·.pc) ++ (d.successors ++ [d.pc])

theorem DecompiledBlock.firstRejected_read (d : DecompiledBlock) :
    FirstRejected d.pcTexts d.read := by
  have hlast : FirstRejected [d.pc] (readPc d.pc) := firstRejected_readPc d.pc
  rw [pcTexts, List.map_eq_flatMap, ← List.flatMap_singleton' d.successors,
    ← List.append_nil [d.pc]]
  refine (firstRejected_mapM (fun i => ?_) _).bind fun _ =>
    (firstRejected_mapM firstRejected_readPc _).bind fun _ =>
    hlast.bind fun _ => firstRejected_pure _
  rw [← List.append_nil [i.pc]]
  exact (firstRejected_readPc i.pc).bind fun _ => firstRejected_pure _

/-- There is no graph exactly if a text for a program counter is rejected. -/
theorem ControlFlowGraph.firstRejected_ofDecompiled (decompiled : List DecompiledBlock) :
    FirstRejected (decompiled.flatMap DecompiledBlock.pcTexts) (ofDecompiled decompiled) := by
  rw [← List.append_nil (decompiled.flatMap _)]
  have hmap : ofDecompiled decompiled =
      decompiled.mapM DecompiledBlock.read >>= fun blocks => .ok (ofBlocks blocks) := by
    rw [ofDecompiled]
    cases decompiled.mapM DecompiledBlock.read <;> rfl
  rw [hmap]
  exact (firstRejected_mapM DecompiledBlock.firstRejected_read _).bind fun _ => firstRejected_pure _

/-- Every text for a program counter is read as that program counter, and a text for a greater
number is rejected. The graph of what is written for a list of blocks is the graph of these blocks.
In general there is no graph exactly if one of the texts for program counters is rejected, and the
failure names the first of those, without the blanks around it. -/
theorem ControlFlowGraph.ofDecompiled_exact :
    (∀ (pc : Pc) (raw : String), WritesPc pc.toNat raw → readPc raw = .ok pc) ∧
    (∀ (n : Nat) (raw : String), UInt64.size ≤ n → WritesPc n raw →
      readPc raw = .error (.malformedGraph (Text.trim raw))) ∧
    (∀ (decompiled : List DecompiledBlock) (blocks : List BasicBlock),
      List.Forall₂ DecompiledBlock.Shows decompiled blocks →
      ofDecompiled decompiled = .ok (ofBlocks blocks)) ∧
    ∀ decompiled : List DecompiledBlock,
      let texts := decompiled.flatMap DecompiledBlock.pcTexts
      ((∃ e, ofDecompiled decompiled = .error e) ↔ ∃ text ∈ texts, ∃ e, readPc text = .error e) ∧
      ∀ e, ofDecompiled decompiled = .error e ↔
        ∃ text, texts.find? rejectsPc = some text ∧
          e = .malformedGraph (Text.trim text) := by
  refine ⟨fun pc raw => readPc_of_writesPc_toNat, fun n raw hsize h => ?_,
    fun decompiled blocks => ofDecompiled_of_shows, fun decompiled => ?_⟩
  · rw [readPc_of_writesPc h, if_neg (Nat.not_lt.mpr hsize)]
  · have hfirst := firstRejected_ofDecompiled decompiled
    refine ⟨?_, hfirst⟩
    constructor
    · rintro ⟨e, he⟩
      obtain ⟨text, hfind, -⟩ := (hfirst e).mp he
      exact ⟨text, List.mem_of_find?_eq_some hfind, rejectsPc_iff.mp (List.find?_some hfind)⟩
    · rintro ⟨text, htext, hrejected⟩
      obtain ⟨first, hfind⟩ := Option.isSome_iff_exists.mp
        (List.find?_isSome.mpr ⟨text, htext, rejectsPc_iff.mpr hrejected⟩)
      exact ⟨_, (hfirst _).mpr ⟨first, hfind, rfl⟩⟩

/-- A block of two instructions that may run again from its second one. -/
def callBlock : BasicBlock := ⟨0, .ofList [(0, "JUMPDEST"), (26, "CALL")], [26]⟩

/-- The block, with its program counters written in different ways. -/
def unevenBlock : DecompiledBlock :=
  ⟨" 0x0\n", [⟨"0X001a", "CALL"⟩, ⟨"\u3000000", "JUMPDEST"⟩], ["026"]⟩

private theorem unevenBlock_shows : unevenBlock.Shows callBlock := by
  have hzero : Text.Padded 10 0 ['0', '0', '0'] := ⟨2, ['0'], rfl, rfl⟩
  have hdecimal : Text.Padded 10 26 ['0', '2', '6'] := ⟨1, ['2', '6'], rfl, rfl⟩
  have hhexadecimal : Text.Padded 16 26 ['0', '0', '1', 'a'] := ⟨2, ['1', 'a'], rfl, rfl⟩
  constructor
  case pc =>
    have hpc : Text.Padded 16 0 ['0'] := ⟨0, ['0'], rfl, rfl⟩
    exact ⟨[' '], _, ['\n'], rfl, List.all_eq_true.mp rfl, .hexadecimal (.inl rfl) hpc⟩
  case instructions =>
    refine ⟨[(26, "CALL"), (0, "JUMPDEST")], rfl, .cons ⟨?_, rfl⟩ (.cons ⟨?_, rfl⟩ .nil)⟩
    · exact ⟨[], _, [], rfl, List.all_eq_true.mp rfl, .hexadecimal (.inr rfl) hhexadecimal⟩
    · exact ⟨['\u3000'], _, [], rfl, List.all_eq_true.mp rfl, .decimal hzero⟩
  case successors =>
    exact .cons ⟨[], _, [], rfl, List.all_eq_true.mp rfl, .decimal hdecimal⟩ .nil

theorem ControlFlowGraph.ofDecompiled_exact_unevenBlock :
    ofDecompiled [unevenBlock] = .ok (ofBlocks [callBlock]) ∧
    readPc " 0x10000000000000000" = .error (.malformedGraph "0x10000000000000000") ∧
    ofDecompiled [unevenBlock, ⟨"0", [], ["1a ", "?"]⟩] = .error (.malformedGraph "1a") := by
  obtain ⟨-, wide, written, rejected⟩ := ofDecompiled_exact
  have hsize : Text.Padded 16 UInt64.size "10000000000000000".toList :=
    ⟨0, "10000000000000000".toList, rfl, by decide +kernel⟩
  refine ⟨written _ _ (.cons unevenBlock_shows .nil), ?_, ?_⟩
  · exact wide UInt64.size " 0x10000000000000000" (Nat.le_refl _)
      ⟨[' '], _, [], rfl, List.all_eq_true.mp rfl, .hexadecimal (.inl rfl) hsize⟩
  · exact ((rejected _).2 _).mpr ⟨"1a ", by decide +kernel, by decide +kernel⟩

end ContractFuzz
