import NeighborGraph.Config.Text
import NeighborGraph.Proofs.Config
import NeighborGraph.Proofs.Json.Reals
import NeighborGraph.Proofs.Json.Records

/-!
# Settings read back

Accepted settings are written as a text that is read back and accepted (`toText_reads_back`).  All but
the four rates are what they were, and a rate is off by less than one part in `2 ^ 48`, since a number is
read by scaling its digits, which rounds twice.  A rate with a short decimal is what it was.
-/

namespace NeighborGraph

open Json

theorem Metric.lookup_code (m : Metric) : Metric.codes.lookup m.code = some m := by
  cases m <;> rfl

theorem Sampler.lookup_code (s : Sampler) : Sampler.codes.lookup s.code = some s := by
  cases s <;> rfl

/-- A column to compare by is read back. -/
theorem PropertySpec.reads_write (s : PropertySpec) (indent : ℕ) :
    Reads PropertySpec.read (s.write indent) s := by
  have name := reads_text s.name (indent + 1)
  have metric := reads_choice (indent + 1) s.metric.lookup_code
  refine reads_record ?_
  refine .member rfl rfl (name.map _) ?_
  refine .member rfl rfl (metric.map _) ?_
  exact .done rfl

namespace Config

/-- What settings are read back as: the same but for the rates, which are read back one by one. -/
structure Kept (c c' : Config) : Prop where
  others : c' = { c with
    sampleRate := c'.sampleRate
    deltaThreshold := c'.deltaThreshold
    similarityCutoff := c'.similarityCutoff
    perturbationRate := c'.perturbationRate }
  sampleRate : Reread c.sampleRate c'.sampleRate
  deltaThreshold : Reread c.deltaThreshold c'.deltaThreshold
  similarityCutoff : Reread c.similarityCutoff c'.similarityCutoff
  perturbationRate : Reread c.perturbationRate c'.perturbationRate

variable {c c' : Config}

theorem reads_write {sampleRate deltaThreshold similarityCutoff perturbationRate : Float}
    (sample : ∀ indent, Reads real (Writer.real c.sampleRate indent) sampleRate)
    (delta : ∀ indent, Reads real (Writer.real c.deltaThreshold indent) deltaThreshold)
    (cutoff : ∀ indent, Reads real (Writer.real c.similarityCutoff indent) similarityCutoff)
    (perturbation : ∀ indent, Reads real (Writer.real c.perturbationRate indent) perturbationRate)
    (indent : ℕ) : Reads Config.read (c.write indent)
      { c with sampleRate, deltaThreshold, similarityCutoff, perturbationRate } := by
  refine reads_record ?_
  refine .member rfl rfl ((reads_word _ _).map _) ?_
  refine .member rfl rfl ((reads_word _ _).map _) ?_
  refine .member rfl rfl ((reads_word _ _).map _) ?_
  refine .member rfl rfl ((sample _).map _) ?_
  refine .member rfl rfl ((delta _).map _) ?_
  refine .member rfl rfl ((reads_optional_word _ _).map _) ?_
  refine .member rfl rfl ((reads_choice _ c.initialSampler.lookup_code).map _) ?_
  refine .member rfl rfl ((cutoff _).map _) ?_
  refine .member rfl rfl ((perturbation _).map _) ?_
  refine .member rfl rfl ((reads_word _ _).map _) ?_
  refine .member rfl rfl ((reads_word _ _).map _) ?_
  refine .member rfl rfl ((reads_list fun s _ => s.reads_write _).map _) ?_
  exact .done rfl

/-- The rates have decimals that are read exactly. -/
def shortRates (c : Config) : Bool :=
  short c.sampleRate && short c.deltaThreshold && short c.similarityCutoff && short c.perturbationRate

theorem Kept.eq_of_shortRates (kept : Kept c c') (exact : c.shortRates = true) : c' = c := by
  simp only [shortRates, Bool.and_eq_true] at exact
  obtain ⟨⟨⟨sample, delta⟩, cutoff⟩, perturbation⟩ := exact
  rw [kept.others, kept.sampleRate.same sample, kept.deltaThreshold.same delta,
    kept.similarityCutoff.same cutoff, kept.perturbationRate.same perturbation]

theorem ofText_toText (c : Config) : ofText c.toText = (do
    let c ← (parse Config.read (c.write 0)).mapError flawed
    c.validate
    return c) := by
  rw [ofText, toText, Writer.toText, String.toList_ofList]

/-- Accepted settings are written as a text that is read back and accepted.  The settings that are read
are the ones that were written but for rates with long decimals, which are near what they were. -/
theorem toText_reads_back (valid : c.validate = .ok ()) :
    ∃ c', ofText c.toText = .ok c' ∧ Kept c c' ∧ (c.shortRates = true → c' = c) := by
  obtain ⟨⟨some, high⟩, ⟨low, delta⟩, ⟨least, cutoff⟩, ⟨rare, perturbation⟩⟩ := rates_unit valid
  obtain ⟨s, sample, samples⟩ := exists_reread (NumberLine.le_of_lt some) high
  obtain ⟨d, delta, deltas⟩ := exists_reread low delta
  obtain ⟨k, cutoff, cutoffs⟩ := exists_reread least cutoff
  obtain ⟨p, perturbation, perturbations⟩ := exists_reread rare perturbation
  have read := reads_write (reads_real · samples) (reads_real · deltas) (reads_real · cutoffs)
    (reads_real · perturbations) 0
  have accepted := validate_rates valid ⟨sample.pos some, sample.unit.2⟩ delta.unit cutoff.unit
    perturbation.unit
  have kept : Kept c { c with
      sampleRate := s
      deltaThreshold := d
      similarityCutoff := k
      perturbationRate := p } := ⟨rfl, sample, delta, cutoff, perturbation⟩
  refine ⟨_, ?_, kept, kept.eq_of_shortRates⟩
  rw [ofText_toText, read.parse]
  show (do validate _; return _) = _
  rw [accepted]
  rfl

/-- The largest seed and a name that needs escapes. -/
theorem toText_reads_back_repeatable :
    validate (repeatable 3 18446744073709551615 [{ name := "größe\n", metric := .cosine }]) = .ok () ∧
    ofText (toText (repeatable 3 18446744073709551615 [{ name := "größe\n", metric := .cosine }])) =
      .ok (repeatable 3 18446744073709551615 [{ name := "größe\n", metric := .cosine }]) := by
  have valid : validate
      (repeatable 3 18446744073709551615 [{ name := "größe\n", metric := .cosine }]) = .ok () := by
    rfl
  refine ⟨valid, ?_⟩
  obtain ⟨c', read, -, same⟩ := toText_reads_back valid
  rw [read, same (by decide +kernel)]

/-- One eleventh is written as `0.09090909090909091`, and read back as the number after it. -/
theorem toText_eleventh : validate { sampleRate := 1.0 / 11.0 } = .ok () ∧
    ofText (toText { sampleRate := 1.0 / 11.0 }) ≠ .ok { sampleRate := 1.0 / 11.0 } := by
  have valid : validate { sampleRate := 1.0 / 11.0 } = .ok () := rfl
  refine ⟨valid, fun same => ?_⟩
  have other : (ofText (toText { sampleRate := 1.0 / 11.0 })).toOption.map (·.sampleRate.toBits) =
      some 0x3fb745d1745d1747 := by
    rw [ofText_toText]
    decide +kernel
  rw [same] at other
  revert other
  decide +kernel

end Config

end NeighborGraph
