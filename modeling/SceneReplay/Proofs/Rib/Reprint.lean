import SceneReplay.Proofs.Rib.Playing

/-!
# What is read back is written as before

A command that is written and read back is the same, but not in every respect: a double may
have become an integer, and zero has lost its sign. On paper neither shows: a number that is
read back is written in the same way (`SceneReplay.Rib.numberText_reread`), and hence so is a
command (`SceneReplay.Rib.commandText_reread`).
-/

namespace SceneReplay

/-! ### Numbers and values -/

/-- Zero is written without its sign. -/
theorem Binary64.numberText_unsignedZero (negative : Bool) (rank : Fin rankLimit) :
    Rib.numberText (.float (finite negative rank).unsignedZero)
      = Rib.numberText (.float (finite negative rank)) := by
  by_cases hzero : rank.val = 0
  · have hunits : units rank.val = 0 := units_eq_zero.2 hzero
    have htext : ∀ negative,
        Rib.numberText (.float (finite negative rank)) = toString (0 : Int) := by
      intro negative
      have hsigned : signedUnits negative rank.val = 0 := by
        cases negative <;> simp [signedUnits, hunits]
      have htruncate : (finite negative rank).truncate? = some 0 := by
        rw [truncate?, hsigned, Int.zero_tdiv]
      have hwhole : (finite negative rank).isWhole = true := by
        rw [isWhole, hunits, Nat.zero_mod]
        rfl
      have hsmall : (0 : Int).natAbs < Rib.plainWholeBound := by decide
      simp only [Rib.numberText, hwhole, if_true, htruncate, hsmall]
    rw [unsignedZero, htext, htext]
  · have hsame : (finite negative rank).unsignedZero = finite negative rank := by
      simp [unsignedZero, hzero]
    rw [hsame]

namespace Rib

/-- **A number that is read back is written in the same way.** -/
theorem numberText_reread {n : Number} (h : n.IsWritable) :
    numberText n.reread = numberText n := by
  match n, h with
  | .int n, _ => rfl
  | .float (.finite negative rank), _ =>
    rcases Number.reread_float negative rank with ⟨n, -, -, -, hreread, htext⟩ | ⟨-, hreread, -⟩
    · rw [hreread, htext]
      rfl
    · rw [hreread]

theorem scalarText_reread {s : Scalar} (h : s.IsWritable) : scalarText s.reread = scalarText s := by
  rcases s with n | t
  · exact congrArg Text.ofString (numberText_reread h)
  · rfl

theorem valueText_rereadItem {v : Value} (h : v.IsItem) :
    valueText v.rereadItem.freeze = valueText v.freeze := by
  rw [h.freeze_reread, h.freeze_eq]
  rcases h with b | @⟨n | t, h⟩
  · rfl
  · match n, h with
    | .int n, _ => rfl
    | .float (.finite negative rank), _ =>
      exact congrArg Text.ofString (Binary64.numberText_unsignedZero negative rank)
  · rfl

/-- **A value that is read back is written in the same way**, and it is there if it was. -/
theorem valueText_reread {v : Value} (h : v = .null ∨ v.IsWritable) :
    valueText v.reread.freeze = valueText v.freeze ∧
      isPresent v.reread.freeze = isPresent v.freeze := by
  rcases h with rfl | h | @⟨vs, h⟩
  · exact ⟨rfl, rfl⟩
  · have hreread : v.reread = v.rereadItem := by rcases h with _ | _ <;> rfl
    rw [hreread]
    refine ⟨valueText_rereadItem h, ?_⟩
    rw [h.freeze_reread, h.freeze_eq]
    rcases h with b | @⟨⟨_ | _⟩ | t, -⟩ <;> rfl
  · have hitems : valueTexts (Value.freezeAll (vs.map Value.rereadItem))
        = valueTexts (Value.freezeAll vs) := by
      induction vs with
      | nil => rfl
      | cons v vs ih =>
        rw [List.forall_mem_cons] at h
        rw [List.map_cons, Value.freezeAll_cons, Value.freezeAll_cons, valueTexts, valueTexts,
          valueText_rereadItem h.1, ih h.2]
    exact ⟨congrArg bracketed hitems, rfl⟩

theorem valueTexts_reread {vs : List Value} (h : ∀ v ∈ vs, v = .null ∨ v.IsWritable) :
    valueTexts ((Value.freezeAll (vs.map Value.reread)).filter isPresent)
      = valueTexts ((Value.freezeAll vs).filter isPresent) := by
  induction vs with
  | nil => rfl
  | cons v vs ih =>
    rw [List.forall_mem_cons] at h
    obtain ⟨htext, hpresent⟩ := valueText_reread h.1
    rw [List.map_cons, Value.freezeAll_cons, Value.freezeAll_cons]
    cases hv : isPresent v.freeze with
    | true =>
      rw [List.filter_cons_of_pos hv, List.filter_cons_of_pos (hpresent.trans hv), valueTexts,
        valueTexts, htext, ih h.2]
    | false =>
      have habsent : ¬isPresent v.freeze = true := by simp [hv]
      rw [List.filter_cons_of_neg habsent, List.filter_cons_of_neg (hpresent ▸ habsent), ih h.2]

/-! ### Commands -/

theorem paramListTexts_reread {ps : ParamList} (h : ∀ p ∈ ps.items, p.IsWritable) :
    paramListTexts (some ps.reread) = paramListTexts (some ps) := by
  have hparam : ∀ p ∈ ps.items, paramTexts p.reread = paramTexts p := by
    intro p hp
    have hvalues : (p.values.map Scalar.reread).map scalarText = p.values.map scalarText := by
      rw [List.map_map]
      exact List.map_congr_left fun s hs => scalarText_reread (h p hp s hs)
    simp only [paramTexts, Param.reread, hvalues]
  simp only [paramListTexts, ParamList.reread, Option.map_some, Option.getD_some, List.flatMap_map]
  exact List.flatMap_congr hparam

/-- The words of parameters are all that a line has of them. -/
theorem commandText_congr {c d : Command} (hproc : c.proc = d.proc) (hargs : c.args = d.args)
    (hparams : paramListTexts c.params = paramListTexts d.params) :
    commandText c = commandText d := by
  unfold commandText
  rw [hproc, hargs, hparams]

theorem commandText_of_ne {proc : String} (hrecord : proc ≠ "ArchiveRecord") (args : List Value)
    (params : Option ParamList) : commandText ⟨proc, args, params⟩
      = if proc = "Procedural" then
          match args with
          | [data, bound, refine, _] => .ok (List.intercalate " "
              (proc :: valueText refine :: valueText data :: valueText bound
                :: paramListTexts params))
          | args => .error (wrongCount 4 args.length)
        else .ok (List.intercalate " "
          (proc :: (valueTexts (args.filter isPresent) ++ paramListTexts params))) :=
  if_neg hrecord

/-- **A command that is read back is written in the same way.** -/
theorem commandText_reread {c : Command} (hrecord : c.proc ≠ "ArchiveRecord")
    (h : c.IsWritable) : commandText c.reread.frozen = commandText c.frozen := by
  obtain ⟨proc, args, params⟩ := c
  have hargs : ∀ v ∈ args, v = .null ∨ v.IsWritable := h.args
  have hparams : paramListTexts (params.map ParamList.reread) = paramListTexts params := by
    rcases params with _ | ps
    · rfl
    · exact paramListTexts_reread (h.params ps rfl)
  calc commandText ⟨proc, Value.freezeAll (args.map Value.reread), params.map ParamList.reread⟩
      = commandText ⟨proc, Value.freezeAll (args.map Value.reread), params⟩ :=
        commandText_congr rfl rfl hparams
    _ = commandText ⟨proc, Value.freezeAll args, params⟩ := by
        rw [commandText_of_ne hrecord, commandText_of_ne hrecord, valueTexts_reread hargs]
        rcases args with _ | ⟨data, _ | ⟨bound, _ | ⟨refine, _ | ⟨last, _ | ⟨next, args⟩⟩⟩⟩⟩
        · rfl
        · rfl
        · rfl
        · rfl
        · simp only [List.map_cons, List.map_nil, Value.freezeAll_cons, Value.freezeAll_nil,
            (valueText_reread (hargs data (by simp))).1,
            (valueText_reread (hargs bound (by simp))).1,
            (valueText_reread (hargs refine (by simp))).1]
        · simp only [List.map_cons, Value.freezeAll_cons, List.length_cons,
            Value.length_freezeAll, List.length_map]

end Rib

end SceneReplay
