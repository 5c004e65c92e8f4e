/-
  LineShell.Proofs.Tree.Printer

  Writing a tree as a line.

  Operators are written with a space on both sides, so no text beside one can
  run together with it.  A group of a conditional ends in two alternatives
  without text: they are left out when the line is read, and their operator
  makes the line a conditional even where there is one group with one
  alternative or none.

  A well-formed tree is read back from its line (`parse_render`).  So reading
  gives exactly the well-formed trees.
-/

import LineShell.Proofs.Tree.WellFormed

namespace LineShell.Tree

open Text

mutual

/-- The line of a tree. -/
def render : Tree → String
  | .command text _ => text
  | .redirect inner mode target => inner ++ " " ++ mode.operator ++ " " ++ target
  | .pipeline stages => " | ".intercalate (stages.map (" ".intercalate ·))
  | .conditional groups => chainText (renderGroups groups)

def renderGroups : List (List Tree) → List (List String)
  | [] => []
  | group :: rest => renderAlternatives group :: renderGroups rest

def renderAlternatives : List Tree → List String
  | [] => ["", ""]
  | t :: rest => render t :: renderAlternatives rest

end

theorem renderAlternatives_eq (group : List Tree) :
    renderAlternatives group = group.map render ++ ["", ""] := by
  induction group with
  | nil => rfl
  | cons t rest ih => rw [renderAlternatives, ih, List.map_cons, List.cons_append]

theorem renderGroups_eq (groups : List (List Tree)) :
    renderGroups groups = groups.map renderAlternatives := by
  induction groups with
  | nil => rfl
  | cons group rest ih => rw [renderGroups, ih, List.map_cons]

/-! ## Parts that stand for themselves -/

/-- Reading the characters of a part with its margins. -/
theorem parse_eq_of_redirect {line : String} {t : Tree} (hand : hasDoubled '&' line.toList = false)
    (hor : hasDoubled '|' line.toList = false) (h : redirectOf? line.toList = some t) :
    parse line = t := by
  rw [parse_eq_ofPart hand hor]
  exact ofPart_of_redirect ((ignoresMargins_redirectOf?.trim line.toList).trans h)

theorem parse_eq_of_pipeline {line : String} (hand : hasDoubled '&' line.toList = false)
    (hor : hasDoubled '|' line.toList = false) (h : redirectOf? line.toList = none)
    (hbar : '|' ∈ line.toList) : parse line = pipeline (stagesOf line.toList) := by
  have hbar' : '|' ∈ trimBy isBlank line.toList :=
    ((ignoresMargins_mem isBlank_bar).trim line.toList).mpr hbar
  rw [parse_eq_ofPart hand hor,
    ofPart_of_pipeline ((ignoresMargins_redirectOf?.trim line.toList).trans h) hbar',
    ignoresMargins_stagesOf.trim]

theorem toList_eq_of_trim {s : String} (h : trim s = s) : trimBy isBlank s.toList = s.toList := by
  conv_rhs => rw [← h, trim, String.toList_ofList]

theorem parse_render_command {text : String} (htrim : trim text = text)
    (hplain : ∀ op ∈ ["|", "<", ">", "&&"], ¬ Contains text op) :
    parse text = command text (words text) := by
  obtain ⟨hbar, hlt, hgt, hand⟩ := forall_not_contains_iff.mp hplain
  have hor := hasDoubled_eq_false_of_not_mem hbar
  rw [parse_eq_ofPart hand hor, toList_eq_of_trim htrim,
    ofPart_of_command (redirectOf?_eq_none_iff.mpr ⟨hgt, hlt⟩) hbar, String.ofList_toList, words]

/-! ## Redirects -/

/-- The characters of a redirect. -/
def redirectText (mode : OpenMode) (inner target : List Char) : List Char :=
  (inner ++ [' ']) ++ mode.operator.toList ++ ' ' :: target

theorem toList_render_redirect (inner target : String) (mode : OpenMode) :
    (render (.redirect inner mode target)).toList
      = redirectText mode inner.toList target.toList := by
  simp [render, redirectText]

theorem hasDoubled_redirectText {d : Char} (hd : isBlank d = false) (mode : OpenMode)
    {inner target : List Char} :
    hasDoubled d (redirectText mode inner target)
      = (hasDoubled d inner || (hasDoubled d mode.operator.toList || hasDoubled d target)) := by
  have hsp : ' ' ≠ d := ne_of_isBlank hd isBlank_space
  rw [redirectText, hasDoubled_append_cons hsp, List.append_assoc, List.singleton_append,
    hasDoubled_append_cons hsp, Bool.or_assoc]

theorem cutAt?_redirectText {mode : OpenMode} {inner target : String}
    (h : mode.Separates inner target) :
    cutAt? mode.operator.toList (redirectText mode inner.toList target.toList)
      = some (inner.toList ++ [' '], ' ' :: target.toList) := by
  have hsingle : ∀ {d : Char}, ' ' ≠ d → d ∉ inner.toList → d ∉ inner.toList ++ [' '] := by
    intro d hsp hd
    rw [List.mem_append, List.mem_singleton, not_or]
    exact ⟨hd, Ne.symm hsp⟩
  rw [redirectText, List.append_assoc]
  cases mode with
  | append =>
    rw [OpenMode.Separates, contains_append_iff, Bool.not_eq_true] at h
    have hno : hasDoubled '>' (inner.toList ++ [' ']) = false := by
      rw [(ignoresMargins_hasDoubled (by decide)).concat isBlank_space, h]
    rw [toList_operator_append]
    exact cutAt?_append_doubled hno (by simp)
  | truncate =>
    obtain ⟨hinner, -⟩ := h
    rw [toList_operator_truncate]
    exact cutAt?_append_single (hsingle (by decide) (contains_gt_iff.not.mp hinner))
  | read =>
    obtain ⟨hinner, -, -⟩ := h
    rw [toList_operator_read]
    exact cutAt?_append_single (hsingle (by decide) (contains_lt_iff.not.mp hinner))

theorem not_gt_mem_redirectText {inner target : String}
    (h : OpenMode.read.Separates inner target) :
    '>' ∉ redirectText .read inner.toList target.toList := by
  obtain ⟨-, hinner, htarget⟩ := h
  rw [contains_gt_iff] at hinner htarget
  simp [redirectText, OpenMode.operator, hinner, htarget]

theorem redirectOf?_redirectText {inner target : String} {mode : OpenMode}
    (hinner : trim inner = inner) (htarget : trim target = target)
    (h : mode.Separates inner target) :
    redirectOf? (redirectText mode inner.toList target.toList)
      = some (.redirect inner mode target) := by
  have hat : redirectAt mode (inner.toList ++ [' '], ' ' :: target.toList)
      = .redirect inner mode target := by
    simp only [redirectAt, trimBy_concat isBlank_space, trimBy_cons isBlank_space,
      toList_eq_of_trim hinner, toList_eq_of_trim htarget, String.ofList_toList]
  have hcut := cutAt?_redirectText h
  simp only [redirectOf?_eq, redirectModes, List.findSome?_cons]
  -- The operators that are looked for earlier must not occur.
  cases mode with
  | append => rw [hcut, Option.map_some, hat]
  | truncate =>
    obtain ⟨hno, hno'⟩ := h
    rw [contains_gt_iff] at hno
    rw [contains_append_iff, Bool.not_eq_true] at hno'
    have happend : cutAt? OpenMode.append.operator.toList
        (redirectText .truncate inner.toList target.toList) = none := by
      rw [cutAt?_eq_none_iff (operator_toList_ne_nil _), toList_operator_append,
        ← hasDoubled_eq_false_iff, hasDoubled_redirectText isBlank_gt,
        hasDoubled_eq_false_of_not_mem hno, hno']
      rfl
    rw [happend, hcut, Option.map_some, hat]
    rfl
  | read =>
    have hno := not_gt_mem_redirectText h
    have hearlier : ∀ mode : OpenMode, '>' ∈ mode.operator.toList →
        cutAt? mode.operator.toList (redirectText .read inner.toList target.toList) = none := by
      intro mode hmem
      rw [cutAt?_eq_none_iff (operator_toList_ne_nil _)]
      exact fun hin => hno (hin.subset hmem)
    rw [hearlier .append (by decide), hearlier .truncate (by decide), hcut, Option.map_some, hat]
    rfl

theorem isAlternative_render_redirect {inner target : String} {mode : OpenMode}
    (hinner : ¬ Contains inner "&&" ∧ ¬ Contains inner "||")
    (htarget : ¬ Contains target "&&" ∧ ¬ Contains target "||") :
    IsAlternative (render (.redirect inner mode target)) := by
  simp only [contains_and_iff, contains_or_iff, Bool.not_eq_true] at hinner htarget
  rw [IsAlternative, toList_render_redirect, hasDoubled_redirectText isBlank_ampersand,
    hasDoubled_redirectText isBlank_bar, hinner.1, hinner.2, htarget.1, htarget.2]
  cases mode <;> decide

/-! ## Pipelines -/

/-- The characters of a stage. -/
def stageText (stage : List String) : List Char := [' '].intercalate (stage.map String.toList)

/-- The characters of a pipeline. -/
def pipelineText (stages : List (List String)) : List Char :=
  [' ', '|', ' '].intercalate (stages.map stageText)

theorem toList_render_pipeline (stages : List (List String)) :
    (render (.pipeline stages)).toList = pipelineText stages := by
  have hstage : ∀ stage : List String, (" ".intercalate stage).toList = stageText stage := by
    intro stage
    simp [stageText]
  simp [render, pipelineText, Function.comp_def, hstage]

/-- The operators that no stage holds, in characters. -/
theorem stageText_plain {stage : List String} (h : ∀ w ∈ stage, IsWord w) :
    '|' ∉ stageText stage ∧ '<' ∉ stageText stage ∧ '>' ∉ stageText stage ∧
      hasDoubled '&' (stageText stage) = false := by
  have hsp : ' ' ≠ '&' := by decide
  refine intercalate_induction
    (P := fun cs => '|' ∉ cs ∧ '<' ∉ cs ∧ '>' ∉ cs ∧ hasDoubled '&' cs = false) ?_ ?_ ?_
  · simp
  · intro p hp
    obtain ⟨w, hw, rfl⟩ := List.mem_map.mp hp
    exact forall_not_contains_iff.mp (h w hw).2.2
  · rintro p q ⟨hbar, hlt, hgt, hand⟩ ⟨hbar', hlt', hgt', hand'⟩
    rw [List.append_assoc, List.singleton_append, hasDoubled_append_cons hsp, hand, hand']
    simp [hbar, hlt, hgt, hbar', hlt', hgt']

theorem wordsOf_stageText {stage : List String} (h : ∀ w ∈ stage, IsWord w) :
    (wordsOf (stageText stage)).map String.ofList = stage := by
  rw [stageText, wordsOf_intercalate, List.map_map]
  · conv_rhs => rw [← List.map_id stage]
    exact List.map_congr_left fun w _ => String.ofList_toList
  · intro p hp
    obtain ⟨w, hw, rfl⟩ := List.mem_map.mp hp
    obtain ⟨hne, hblank, -⟩ := h w hw
    exact ⟨by simpa using hne, hblank⟩

theorem pipelineText_cons_cons (stage next : List String) (rest : List (List String)) :
    pipelineText (stage :: next :: rest)
      = (stageText stage ++ [' ']) ++ '|' :: ' ' :: pipelineText (next :: rest) := by
  simp [pipelineText, List.intercalate_cons_cons]

theorem stagesOf_pipelineText {stages : List (List String)} (hne : stages ≠ [])
    (h : ∀ stage ∈ stages, ∀ w ∈ stage, IsWord w) : stagesOf (pipelineText stages) = stages := by
  induction stages with
  | nil => exact absurd rfl hne
  | cons stage rest ih =>
    have hstage := h stage List.mem_cons_self
    obtain ⟨hbar, -⟩ := stageText_plain hstage
    have hwords := wordsOf_stageText hstage
    cases rest with
    | nil =>
      rw [pipelineText, List.map_singleton, List.intercalate_singleton, stagesOf,
        List.splitOn_eq_singleton hbar, List.map_singleton, hwords]
    | cons next rest =>
      have ih' := ih (List.cons_ne_nil next rest) fun s hs => h s (List.mem_cons_of_mem _ hs)
      have hbar' : '|' ∉ stageText stage ++ [' '] := by simpa using hbar
      have hrest : stagesOf (' ' :: pipelineText (next :: rest)) = next :: rest := by
        rw [ignoresMargins_stagesOf.cons isBlank_space, ih']
      rw [pipelineText_cons_cons, stagesOf, List.splitOn_append_cons_self_of_not_mem hbar',
        List.map_cons, ignoresMargins_wordsOf.concat isBlank_space, hwords]
      exact congrArg _ hrest

theorem pipelineText_plain {stages : List (List String)}
    (h : ∀ stage ∈ stages, ∀ w ∈ stage, IsWord w) :
    '<' ∉ pipelineText stages ∧ '>' ∉ pipelineText stages ∧
      hasDoubled '&' (pipelineText stages) = false ∧
      hasDoubled '|' (pipelineText stages) = false := by
  refine intercalate_induction (P := fun cs => '<' ∉ cs ∧ '>' ∉ cs ∧
    hasDoubled '&' cs = false ∧ hasDoubled '|' cs = false) ?_ ?_ ?_
  · simp
  · intro p hp
    obtain ⟨stage, hstage, rfl⟩ := List.mem_map.mp hp
    obtain ⟨hbar, hlt, hgt, hand⟩ := stageText_plain (h stage hstage)
    exact ⟨hlt, hgt, hand, hasDoubled_eq_false_of_not_mem hbar⟩
  · rintro p q ⟨hlt, hgt, hand, hor⟩ ⟨hlt', hgt', hand', hor'⟩
    -- The bar between two stages has a space on both sides.
    have hsplit : p ++ [' ', '|', ' '] ++ q = p ++ ' ' :: (['|'] ++ ' ' :: q) := by simp
    rw [hsplit, hasDoubled_append_cons (by decide), hasDoubled_append_cons (by decide),
      hasDoubled_append_cons (by decide), hasDoubled_append_cons (by decide), hand, hand', hor,
      hor']
    simp [hlt, hgt, hlt', hgt']

/-! ## Reading what has been written -/

theorem isAlternative_render {t : Tree} (h : t.WellFormed) (hflat : t.isConditional = false) :
    IsAlternative t.render := by
  cases h with
  | command htrim hplain =>
    obtain ⟨hbar, -, -, hand⟩ := forall_not_contains_iff.mp hplain
    exact ⟨hand, hasDoubled_eq_false_of_not_mem hbar⟩
  | redirect _ _ hinner htarget _ => exact isAlternative_render_redirect hinner htarget
  | pipeline _ hwords =>
    obtain ⟨-, -, hand, hor⟩ := pipelineText_plain hwords
    rw [IsAlternative, toList_render_pipeline]
    exact ⟨hand, hor⟩
  | conditional => exact absurd hflat (by simp [isConditional])

/-- A line without text is read as the command without text. -/
theorem parse_of_trim_eq_empty {line : String} (h : trim line = "") :
    parse line = command "" [] := by
  rw [trim, String.ofList_eq_empty_iff] at h
  simp only [parse, h, hasDoubled_nil, Bool.false_eq_true, or_self, if_false]
  rfl

theorem trim_render_ne_empty {t : Tree} (hparse : parse t.render = t)
    (hne : t.isEmptyCommand = false) : trim t.render ≠ "" := by
  intro htrim
  rw [parse_of_trim_eq_empty htrim] at hparse
  rw [← hparse] at hne
  exact absurd hne (by decide)

theorem parse_render_redirect {inner target : String} {mode : OpenMode}
    (hinner : trim inner = inner) (htarget : trim target = target)
    (hinner' : ¬ Contains inner "&&" ∧ ¬ Contains inner "||")
    (htarget' : ¬ Contains target "&&" ∧ ¬ Contains target "||")
    (hseparates : mode.Separates inner target) :
    parse (render (.redirect inner mode target)) = .redirect inner mode target := by
  obtain ⟨hand, hor⟩ := isAlternative_render_redirect hinner' htarget'
  apply parse_eq_of_redirect hand hor
  rw [toList_render_redirect]
  exact redirectOf?_redirectText hinner htarget hseparates

theorem parse_render_pipeline {stages : List (List String)} (htwo : 2 ≤ stages.length)
    (hwords : ∀ stage ∈ stages, ∀ w ∈ stage, IsWord w) :
    parse (render (.pipeline stages)) = .pipeline stages := by
  obtain ⟨hlt, hgt, hand, hor⟩ := pipelineText_plain hwords
  have hbar : '|' ∈ pipelineText stages := by
    match stages, htwo with
    | stage :: next :: rest, _ => simp [pipelineText_cons_cons]
  rw [← toList_render_pipeline] at hlt hgt hand hor hbar
  have hredirect := redirectOf?_eq_none_iff.mpr ⟨hgt, hlt⟩
  have hne : stages ≠ [] := List.ne_nil_of_length_pos (by omega)
  rw [parse_eq_of_pipeline hand hor hredirect hbar, toList_render_pipeline,
    stagesOf_pipelineText hne hwords]

/-- The two empty alternatives at the end of a group are left out again. -/
theorem map_parse_renderAlternatives {group : List Tree}
    (hparse : ∀ t ∈ group, parse t.render = t)
    (hnonempty : ∀ t ∈ group, t.isEmptyCommand = false) :
    ((renderAlternatives group).filter fun a => !(trim a).isEmpty).map parse = group := by
  have hkeep : (group.map render).filter (fun a => !(trim a).isEmpty) = group.map render := by
    rw [List.filter_eq_self]
    intro a ha
    obtain ⟨t, ht, rfl⟩ := List.mem_map.mp ha
    simpa using trim_render_ne_empty (hparse t ht) (hnonempty t ht)
  have hdrop : ["", ""].filter (fun a => !(trim a).isEmpty) = [] := by decide
  rw [renderAlternatives_eq, List.filter_append, hkeep, hdrop, List.append_nil, List.map_map]
  conv_rhs => rw [← List.map_id group]
  exact List.map_congr_left hparse

theorem parse_render_conditional {groups : List (List Tree)} (hne : groups ≠ [])
    (hparse : ∀ group ∈ groups, ∀ t ∈ group, parse t.render = t)
    (hplain : ∀ group ∈ groups, ∀ t ∈ group, IsAlternative t.render)
    (hnonempty : ∀ group ∈ groups, ∀ t ∈ group, t.isEmptyCommand = false) :
    parse (render (.conditional groups)) = .conditional groups := by
  -- Neither the lines of the members nor the empty ones hold an operator of a chain.
  have halternative : ∀ group ∈ renderGroups groups, ∀ a ∈ group, IsAlternative a := by
    rw [renderGroups_eq]
    intro texts htexts a ha
    obtain ⟨group, hgroup, rfl⟩ := List.mem_map.mp htexts
    rw [renderAlternatives_eq, List.mem_append] at ha
    rcases ha with ha | ha
    · obtain ⟨t, ht, rfl⟩ := List.mem_map.mp ha
      exact hplain group hgroup t ht
    · have hempty : a = "" := by simpa using ha
      rw [hempty]
      decide
  -- The two empty alternatives make any group long enough for the line to be a conditional.
  have hlong : ∃ group ∈ renderGroups groups, 2 ≤ group.length := by
    obtain ⟨group, rest, rfl⟩ := List.exists_cons_of_ne_nil hne
    refine ⟨renderAlternatives group, by simp [renderGroups], ?_⟩
    rw [renderAlternatives_eq, List.length_append]
    exact Nat.le_add_left 2 _
  rw [render, parse_chainText halternative (Or.inr hlong), renderGroups_eq, List.map_map]
  congr 1
  conv_rhs => rw [← List.map_id groups]
  exact List.map_congr_left fun group hgroup =>
    map_parse_renderAlternatives (hparse group hgroup) (hnonempty group hgroup)

/-- A well-formed tree is read back from its line. -/
theorem parse_render {t : Tree} (h : t.WellFormed) : parse t.render = t := by
  induction h with
  | command htrim hplain => exact parse_render_command htrim hplain
  | redirect htrim htrim' hinner htarget hseparates =>
    exact parse_render_redirect htrim htrim' hinner htarget hseparates
  | pipeline htwo hwords => exact parse_render_pipeline htwo hwords
  | conditional hne hmembers hflat hnonempty ih =>
    refine parse_render_conditional hne ih ?_ hnonempty
    exact fun group hgroup t ht =>
      isAlternative_render (hmembers group hgroup t ht) (hflat group hgroup t ht)

/-- Reading gives exactly the well-formed trees: every line is read as one, and every one is
    read from the line that it is written as. -/
theorem parse_image :
    (∀ line, (parse line).WellFormed) ∧ ∀ t : Tree, t.WellFormed → parse t.render = t :=
  ⟨parse_wellFormed, fun _ h => parse_render h⟩

/-- A conditional whose first group has a pipeline with an empty stage and a redirect without
    a target, and whose second group is empty. -/
theorem parse_image_conditional :
    let t : Tree := .conditional [[.pipeline [["a", "b&"], []], .redirect "c >" .append ""], []]
    t.WellFormed ∧ t.render = "a b& |  || c > >>  ||  ||  &&  || " ∧ parse t.render = t := by
  intro t
  have hwell : t.WellFormed := by
    refine .conditional (by decide) ?_ (by decide) (by decide)
    intro group hgroup member hmember
    simp only [List.mem_cons, List.not_mem_nil, or_false] at hgroup
    rcases hgroup with rfl | rfl
    · simp only [List.mem_cons, List.not_mem_nil, or_false] at hmember
      rcases hmember with rfl | rfl
      · exact .pipeline (by decide) (by decide)
      · exact .redirect (by decide) (by decide) (by decide) (by decide)
          (show ¬ Contains "c >" ">>" by decide)
    · exact absurd hmember List.not_mem_nil
  exact ⟨hwell, by decide, parse_image.2 t hwell⟩

end LineShell.Tree
