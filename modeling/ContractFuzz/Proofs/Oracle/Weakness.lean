import ContractFuzz.Proofs.Oracle.Snapshot
/-!
# Weaknesses and events

The weaknesses that oracles detect grow with the events of a transaction, with one exception: a
failure of the whole call explains a failure inside it, which then is no weakness any more.

## Main definitions

* `Snapshot.Within` : all observations of a snapshot are observations of another.

## Main results

* `Oracle.detects_of_within` : what an oracle detects, it detects among further observations.
* `mem_detectWeaknesses` : the weaknesses that are detected.
* `detectWeaknesses_exact` : what snapshots and weaknesses depend on.
-/

namespace ContractFuzz

variable {s t : Snapshot} {oracles oracles' : List Oracle} {xs ys : List String} {w : String}

/-- Everything observed in one snapshot was observed in the other. -/
def Snapshot.Within (s t : Snapshot) : Prop := ∀ o, s.has o = true → t.has o = true

theorem Snapshot.Within.hasEffect (h : s.Within t) (heffect : s.hasEffect = true) :
    t.hasEffect = true := by
  simp only [Snapshot.hasEffect, Bool.or_eq_true] at heffect ⊢
  rcases heffect with (hstorage | htransfer) | hsend
  · exact .inl (.inl (h .storageChanged hstorage))
  · exact .inl (.inr (h .etherTransfer htransfer))
  · exact .inr (h .sendOp hsend)

/-- What an oracle detects, it detects among further observations. Only the one for failures inside
a call that goes on has to know that the call did not fail itself. -/
theorem Oracle.detects_of_within {oracle : Oracle} (h : s.Within t)
    (root : oracle = .exceptionDisorder → t.rootCallFailed = false)
    (hs : oracle.detects s = true) : oracle.detects t = true := by
  cases oracle <;> simp only [detects, Bool.and_eq_true, Bool.or_eq_true, Bool.not_eq_true'] at hs ⊢
  case reentrancy => exact ⟨h .repeatedCall hs.1, h .etherTransfer hs.2⟩
  case exceptionDisorder => exact ⟨h .nestedCallFailed hs.1, root rfl⟩
  case gaslessSend => exact ⟨h .sendOp hs.1, h .outOfGas hs.2⟩
  case timestampDependency => exact ⟨h .timestamp hs.1, h.hasEffect hs.2⟩
  case numberDependency =>
    exact ⟨hs.1.imp (h .blockNumber) (h .blockHash), h.hasEffect hs.2⟩
  case dangerousDelegateCall =>
    exact ⟨h .delegateCall hs.1, h .delegateInputControlled hs.2⟩

theorem mem_detectWeaknesses :
    w ∈ detectWeaknesses oracles s ↔ ∃ o ∈ oracles, o.detects s = true ∧ o.name = w := by
  simp only [detectWeaknesses, SortedSet.mem_ofList, List.mem_map, List.mem_filter, and_assoc]

theorem detectWeaknesses_congr (h : ∀ o, o ∈ oracles ↔ o ∈ oracles') :
    detectWeaknesses oracles s = detectWeaknesses oracles' s :=
  SortedSet.ext_mem fun w => by simp only [mem_detectWeaknesses, h]

/-- No oracle but one is called so. -/
theorem Oracle.name_eq_iff {o : Oracle} :
    o.name = "exception_disorder" ↔ o = .exceptionDisorder := by
  cases o <;> decide

/-- A failure of the whole call has one normal name. -/
theorem Observation.named_rootCallFailed_iff {name : String} :
    rootCallFailed.Named name ↔ normalize name = "rootcallfailed" := by
  have only : ∀ e ∈ table, e.2 = rootCallFailed → normalize e.1 = "rootcallfailed" := by
    decide +kernel
  constructor
  · rintro ⟨known, hknown, hname⟩
    rw [normalize_eq_iff.mpr hname, only _ hknown rfl]
  · intro h
    rw [← ofName?_eq_some_iff, ofName?, h]
    decide +kernel

/-- More events leave all observations as they are. -/
theorem Snapshot.within_ofEvents (h : xs ⊆ ys) : (ofEvents xs).Within (ofEvents ys) := by
  intro o ho
  obtain ⟨x, hx, hnamed⟩ := has_ofEvents.mp ho
  exact has_ofEvents.mpr ⟨x, h hx, hnamed⟩

/-- A failure inside a call is no weakness when the call failed. -/
theorem not_mem_detectWeaknesses_of_rootCallFailed (h : s.rootCallFailed = true) :
    "exception_disorder" ∉ detectWeaknesses oracles s := by
  rw [mem_detectWeaknesses]
  rintro ⟨o, -, hdetects, hname⟩
  obtain rfl := Oracle.name_eq_iff.mp hname
  simp [Oracle.detects, h] at hdetects

/-- What further events take away. -/
theorem mem_detectWeaknesses_ofEvents (h : xs ⊆ ys)
    (hw : w ∈ detectWeaknesses oracles (Snapshot.ofEvents xs)) :
    w ∉ detectWeaknesses oracles (Snapshot.ofEvents ys) ↔
      w = "exception_disorder" ∧
        ∃ y ∈ ys, y ∉ xs ∧ Observation.normalize y = "rootcallfailed" := by
  have failed {zs : List String} : (Snapshot.ofEvents zs).rootCallFailed = true ↔
      ∃ z ∈ zs, Observation.normalize z = "rootcallfailed" := by
    simp only [← Observation.named_rootCallFailed_iff]
    exact Snapshot.has_ofEvents (o := .rootCallFailed)
  constructor
  · intro hlost
    obtain ⟨o, ho, hdetects, rfl⟩ := mem_detectWeaknesses.mp hw
    -- The only oracle that may lose its weakness is the one that needs the call to go on.
    obtain ⟨rfl, hroot⟩ : o = .exceptionDisorder ∧
        (Snapshot.ofEvents ys).rootCallFailed = true := by
      by_contra hkept
      refine hlost (mem_detectWeaknesses.mpr ⟨o, ho, ?_, rfl⟩)
      refine Oracle.detects_of_within (Snapshot.within_ofEvents h) (fun heq => ?_) hdetects
      simpa [heq] using hkept
    obtain ⟨y, hy, hname⟩ := failed.mp hroot
    refine ⟨rfl, y, hy, fun hx => ?_, hname⟩
    exact not_mem_detectWeaknesses_of_rootCallFailed (failed.mpr ⟨y, hx, hname⟩) hw
  · rintro ⟨rfl, y, hy, -, hname⟩
    exact not_mem_detectWeaknesses_of_rootCallFailed (failed.mpr ⟨y, hy, hname⟩)

/-- The snapshot of two lists of events together is what was observed in either. So their order and
their repetition do not count, nor the spelling of their names, nor names that stand for nothing.
Further events take away the weakness that the call went on after a failure inside it, exactly if
one of them is that it did not; they take away nothing else. Of the oracles only counts which they
are. -/
theorem detectWeaknesses_exact :
    (∀ xs ys : List String, Snapshot.ofEvents (xs ++ ys) =
      (Snapshot.ofEvents xs).or (Snapshot.ofEvents ys)) ∧
    (∀ xs ys : List String, (∀ name, name ∈ xs ↔ name ∈ ys) →
      Snapshot.ofEvents xs = Snapshot.ofEvents ys) ∧
    (∀ xs ys : List String, List.Forall₂ (fun x y => Respelled x.toList y.toList) xs ys →
      Snapshot.ofEvents xs = Snapshot.ofEvents ys) ∧
    (∀ (xs ys : List String) (name : String), (∀ o : Observation, ¬ o.Named name) →
      Snapshot.ofEvents (xs ++ name :: ys) = Snapshot.ofEvents (xs ++ ys)) ∧
    (∀ (oracles : List Oracle) (xs ys : List String), xs ⊆ ys →
      ∀ w ∈ detectWeaknesses oracles (Snapshot.ofEvents xs),
        (w ∉ detectWeaknesses oracles (Snapshot.ofEvents ys) ↔
          w = "exception_disorder" ∧
            ∃ y ∈ ys, y ∉ xs ∧ Observation.normalize y = "rootcallfailed")) ∧
    ∀ (oracles oracles' : List Oracle) (s : Snapshot), (∀ o, o ∈ oracles ↔ o ∈ oracles') →
      detectWeaknesses oracles s = detectWeaknesses oracles' s := by
  refine ⟨Snapshot.ofEvents_append, fun xs ys h => ?_, fun xs ys h => ?_, fun xs ys name h => ?_,
    fun oracles xs ys h w => mem_detectWeaknesses_ofEvents h,
    fun oracles oracles' s => detectWeaknesses_congr⟩
  · exact Snapshot.ofEvents_eq_iff.mpr fun o => by simp only [h]
  · exact Snapshot.ofEvents_of_respelled h
  · exact Snapshot.ofEvents_of_unknown h xs ys

/-- A failure inside a call is a weakness until the failure of the call is reported, in whatever
spelling. -/
theorem detectWeaknesses_exact_failedCall :
    "exception_disorder" ∈ detectWeaknesses Oracle.all (Snapshot.ofEvents ["NestedCallFailed"]) ∧
    "exception_disorder" ∉ detectWeaknesses Oracle.all
      (Snapshot.ofEvents ["root_call-failed", "NestedCallFailed"]) ∧
    Snapshot.ofEvents ["exception call"] = Snapshot.ofEvents ["ExceptionCall!"] := by
  obtain ⟨-, -, spelling, -, further, -⟩ := detectWeaknesses_exact
  have hdetected : "exception_disorder" ∈
      detectWeaknesses Oracle.all (Snapshot.ofEvents ["NestedCallFailed"]) :=
    mem_detectWeaknesses.mpr ⟨.exceptionDisorder, by decide, by decide +kernel, rfl⟩
  refine ⟨hdetected, ?_, spelling _ _ (.cons ?_ .nil)⟩
  · exact (further _ _ _ (by simp) _ hdetected).mpr
      ⟨rfl, "root_call-failed", by simp, by decide, by decide +kernel⟩
  · exact Observation.normalize_eq_iff.mp (by decide +kernel)

end ContractFuzz
