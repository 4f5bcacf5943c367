import RoundScoring.Consensus.Pass

/-!
What passes leave alone. A pass moves coefficients and nothing else: reports keep their order, their
losses and their stakes (`settle_same`).
-/

namespace RoundScoring.Consensus

variable {R : Type}

/-- What two lists of reports share when only coefficients differ. -/
def SameButCoefficients (before after : List (Report R)) : Prop :=
  after.map (fun report => (report.coverage, report.stake)) =
    before.map fun report => (report.coverage, report.stake)

theorem SameButCoefficients.refl (reports : List (Report R)) : SameButCoefficients reports reports :=
  rfl

theorem SameButCoefficients.trans {first second third : List (Report R)}
    (left : SameButCoefficients first second) (right : SameButCoefficients second third) :
    SameButCoefficients first third :=
  Eq.trans right left

theorem SameButCoefficients.map_coverage {before after : List (Report R)}
    (same : SameButCoefficients before after) :
    after.map Report.coverage = before.map Report.coverage := by
  have firsts := congrArg (List.map Prod.fst) same
  simpa [Function.comp_def] using firsts

theorem SameButCoefficients.map_stake {before after : List (Report R)}
    (same : SameButCoefficients before after) :
    after.map Report.stake = before.map Report.stake := by
  have seconds := congrArg (List.map Prod.snd) same
  simpa [Function.comp_def] using seconds

variable [Scalar R]

@[simp] theorem coverage_clamped (config : Config R) (report : Report R) :
    (report.clamped config).coverage = report.coverage := rfl

@[simp] theorem stake_clamped (config : Config R) (report : Report R) :
    (report.clamped config).stake = report.stake := rfl

@[simp] theorem coverage_movedTowards (config : Config R) (report : Report R) (target : R) :
    (report.movedTowards config target).coverage = report.coverage := rfl

@[simp] theorem stake_movedTowards (config : Config R) (report : Report R) (target : R) :
    (report.movedTowards config target).stake = report.stake := rfl

theorem rescaled_same (config : Config R) (reports : List (Report R)) :
    SameButCoefficients reports (rescaled config reports) := by
  unfold SameButCoefficients rescaled
  dsimp only
  split
  next => simp [Function.comp_def]
  next => rfl

theorem pass_same {config : Config R} {keys : OrderedSet LossKey} {reports moved : List (Report R)}
    (passed : pass config keys reports = .ok moved) : SameButCoefficients reports moved := by
  obtain ⟨levels, _, scaled⟩ := Fault.bind_eq_ok_iff.mp passed
  cases scaled
  refine SameButCoefficients.trans ?_ (rescaled_same config _)
  simp [SameButCoefficients, Function.comp_def]

theorem settle_same {config : Config R} {keys : OrderedSet LossKey} {remaining done passes : Nat}
    {reports settled : List (Report R)}
    (settles : settle config keys remaining reports done = .ok (settled, passes)) :
    SameButCoefficients reports settled := by
  induction remaining generalizing reports done with
  | zero =>
    cases settles
    exact .refl _
  | succ remaining ih =>
    obtain ⟨moved, passed, rest⟩ := Fault.bind_eq_ok_iff.mp settles
    split at rest
    next =>
      cases rest
      exact pass_same passed
    next => exact (pass_same passed).trans (ih rest)

theorem map_coverage_of_settle {config : Config R} {keys : OrderedSet LossKey}
    {remaining done passes : Nat} {reports settled : List (Report R)}
    (settles : settle config keys remaining reports done = .ok (settled, passes)) :
    settled.map Report.coverage = reports.map Report.coverage :=
  (settle_same settles).map_coverage

end RoundScoring.Consensus
