import Vivarium.Engine.Config

/-! # Saved configurations

A configuration that was saved and is loaded again has its tick rate and its workers, and each of its
two durations is cut to whole milliseconds. The count of milliseconds has 64 bits, and the longest
duration has a thousand times as many: of a long one, whole multiples of `Duration.saveable` are lost.
-/

namespace Vivarium

namespace Duration

/-- The shortest duration whose count of milliseconds does not fit into 64 bits. -/
def saveable : Nat := UInt64.size * 1000000

theorem wholeMillis_lt (d : Nat) : wholeMillis d < UInt64.size := Nat.mod_lt _ (by decide)

theorem wholeMillis_ofMillis {ms : Nat} (h : ms < UInt64.size) : wholeMillis (ofMillis ms) = ms := by
  rw [wholeMillis, ofMillis, Nat.mul_div_cancel _ (by decide), Nat.mod_eq_of_lt h]

theorem ofMillis_wholeMillis_lt (d : Nat) : ofMillis (wholeMillis d) < saveable :=
  Nat.mul_lt_mul_of_pos_right (wholeMillis_lt d) (by decide)

/-- What comes back, the multiples that are lost, and less than a millisecond. -/
theorem eq_ofMillis_wholeMillis_add (d : Nat) :
    d = ofMillis (wholeMillis d) + d / saveable * saveable + d % 1000000 := by
  unfold ofMillis wholeMillis saveable UInt64.size
  omega

/-- How a duration `d` comes back as `d'`. -/
structure CutTo (d d' : Nat) : Prop where
  whole : 1000000 ∣ d'
  le : d' ≤ d
  near : d < d' + 1000000 ↔ d < saveable
  same : d' = d ↔ 1000000 ∣ d ∧ d < saveable
  lost : d = d' + d / saveable * saveable + d % 1000000
  few : d ≤ max → d / saveable < 1000

theorem cutTo_ofMillis_wholeMillis (d : Nat) : CutTo d (ofMillis (wholeMillis d)) := by
  have hwhole : 1000000 ∣ ofMillis (wholeMillis d) := Nat.dvd_mul_left _ _
  have hshort := ofMillis_wholeMillis_lt d
  have hlost := eq_ofMillis_wholeMillis_add d
  have hrest : d % 1000000 < 1000000 := Nat.mod_lt _ (by decide)
  have hsaveable : saveable = 18446744073709551616000000 := rfl
  rw [hsaveable] at hshort hlost
  refine ⟨hwhole, ?_, ?_, ?_, ?_, ?_⟩
  · omega
  · rw [hsaveable]
    omega
  · rw [hsaveable]
    omega
  · rw [hsaveable]
    exact hlost
  · intro hmax
    unfold max at hmax
    rw [hsaveable]
    omega

end Duration

deriving instance DecidableEq for EngineConfig.GivenFields

/-- The fields of a saved configuration, all of them given. -/
def SavedConfig.given (s : SavedConfig) : EngineConfig.GivenFields :=
  ⟨s.ticksPerSecond, s.workers, s.spinThreshold, s.terminationTimeout⟩

namespace EngineConfig

variable {c : EngineConfig}

theorem save_load {s : SavedConfig} (hspin : s.spinThreshold < UInt64.size)
    (htimeout : s.terminationTimeout < UInt64.size) : (load s).save = s := by
  rw [save, load, Duration.wholeMillis_ofMillis hspin, Duration.wholeMillis_ofMillis htimeout]

theorem save_load_save (c : EngineConfig) : (load c.save).save = c.save :=
  save_load (Duration.wholeMillis_lt _) (Duration.wholeMillis_lt _)

theorem validate_load_save (c : EngineConfig) : (load c.save).validate = c.validate := rfl

/-- A text with all four fields is read as the configuration they were saved from. -/
theorem ofRon_of_given (hc : c.validate = .ok ()) {text : String}
    (hread : Ron.read? readRecord text = some c.save.given) (processors : Nat) :
    ofRon processors text = .ok (load c.save) := by
  rw [ofRon, hread]
  show ((load c.save).validate >>= fun _ => Except.ok (load c.save)) = _
  rw [validate_load_save, hc]
  rfl

/-- How a configuration `c` comes back as `l`. -/
structure ComesBackAs (c l : EngineConfig) : Prop where
  valid : l.validate = .ok ()
  rate : l.ticksPerSecond = c.ticksPerSecond
  workers : l.workers = c.workers
  spin : Duration.CutTo c.spinThreshold l.spinThreshold
  timeout : Duration.CutTo c.terminationTimeout l.terminationTimeout
  again : load l.save = l
  words : c.save.spinThreshold < UInt64.size ∧ c.save.terminationTimeout < UInt64.size
  text : ∀ processors text, Ron.read? readRecord text = some c.save.given →
    ofRon processors text = .ok l

end EngineConfig

open EngineConfig

/-- A configuration that is accepted comes back from a save and a load with its tick rate, its workers,
and its durations less than a millisecond shorter, if their counts of milliseconds fit into 64 bits; a
longer one loses whole multiples of what fits. Nothing more is lost the second time. -/
theorem configuration_comes_back {c : EngineConfig} (hc : c.validate = .ok ()) :
    c.ComesBackAs (load c.save) where
  valid := (validate_load_save c).trans hc
  rate := rfl
  workers := rfl
  spin := Duration.cutTo_ofMillis_wholeMillis _
  timeout := Duration.cutTo_ofMillis_wholeMillis _
  again := congrArg load (save_load_save c)
  words := ⟨Duration.wholeMillis_lt _, Duration.wholeMillis_lt _⟩
  text processors _ hread := ofRon_of_given hc hread processors

/-- It has half a millisecond over, and the longest timeout. -/
def patient : EngineConfig :=
  (((standard 4).withTicksPerSecond 20).withSpinThreshold 10500000).withTerminationTimeout Duration.max

def patientText : String := "(ticks_per_second: 20, worker_count: 4, spin_yield_threshold: 10, " ++
  "termination_timeout: 18446744073709551615)"

theorem patient_comes_back : patient.validate = .ok () ∧ patient.ComesBackAs (load patient.save) ∧
    (load patient.save).spinThreshold = 10000000 ∧
    ofRon 1 patientText = .ok (load patient.save) :=
  ⟨rfl, configuration_comes_back rfl, by decide,
    (configuration_comes_back rfl).text 1 patientText (by decide +kernel)⟩

/-- Its timeout is the shortest that is not saved. -/
def lenient : EngineConfig := (standard 4).withTerminationTimeout Duration.saveable

/-- A timeout of a whole number of milliseconds may come back as none at all. -/
theorem long_timeout_is_lost : lenient.validate = .ok () ∧ lenient.spinThreshold ≤ Duration.max ∧
    lenient.terminationTimeout ≤ Duration.max ∧ 1000000 ∣ lenient.terminationTimeout ∧
    (load lenient.save).terminationTimeout = 0 ∧
    ¬lenient.terminationTimeout < (load lenient.save).terminationTimeout + 1000000 :=
  ⟨rfl, by decide⟩

end Vivarium
