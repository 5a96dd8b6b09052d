import Wheespa.RequestFormat

/-!
# The grammar of a request

A request is its type in brackets and two to four parameters, each a name and a value. `rex` matches
these texts and no others, and the iteration over the matches of `shared_rex` visits the parameters
one by one. `request_parameters` states both, and that a text has one list of parameters only.
-/

namespace Wheespa

/-- A parameter of a request. -/
structure Parameter where
  name : Str
  value : Str
  name_ne_nil : name ≠ []
  name_lower : ∀ c ∈ name, c.isLower = true
  value_ne_nil : value ≠ []
  value_chars : IsValue value

namespace Parameter

/-- The text of a parameter. -/
def render (parameter : Parameter) : Str :=
  parameter.name ++ "=".toList ++ parameter.value ++ ":::".toList

/-- The groups of `shared_rex` on a parameter. -/
def groups (parameter : Parameter) : Regex.Groups Char :=
  Function.update (Function.update (fun _ => none) 1 (some parameter.name)) 2
    (some parameter.value)

/-- A parameter is its name and its value. -/
theorem eq_of_groups {first second : Parameter} (h : first.groups = second.groups) :
    first = second := by
  obtain ⟨name, value, _, _, _, _⟩ := first
  obtain ⟨name', value', _, _, _, _⟩ := second
  obtain rfl : name = name' := by simpa [groups] using congrFun h 1
  obtain rfl : value = value' := by simpa [groups] using congrFun h 2
  rfl

/-- The text of a parameter is not empty. -/
theorem render_ne_nil (parameter : Parameter) : parameter.render ≠ [] := by
  simp [render]

/-- In front of any rest, `shared_rex` matches a parameter and nothing more. -/
theorem search_render (parameter : Parameter) (rest : Str) :
    sharedRex.search (parameter.render ++ rest) = some (parameter.groups, rest) := by
  refine Regex.search_of_exec ?_
  have hequals : ∀ (groups : Regex.Groups Char) (c : Char) (s : Str), c.isLower = true →
      ((Regex.text "=".toList).seq ((Regex.capture 2 (.plus isValueChar)).seq
        (.text ":::".toList))).exec (fun groups rest => some (groups, rest)) groups (c :: s) =
        none := by
    intro groups c s hc
    refine Regex.exec_text_cons ?_ _ _ _ _
    rintro rfl
    exact absurd hc (by decide)
  have hcolon : ∀ (groups : Regex.Groups Char) (c : Char) (s : Str), isValueChar c = true →
      (Regex.text ":::".toList).exec (fun groups rest => some (groups, rest)) groups (c :: s) =
        none := by
    intro groups c s hc
    refine Regex.exec_text_cons ?_ _ _ _ _
    rintro rfl
    exact absurd hc (by decide)
  have hname : ∀ c ∈ ("=".toList ++ (parameter.value ++ (":::".toList ++ rest))).head?,
      c.isLower = false := by
    intro c hc
    obtain rfl : '=' = c := Option.some.inj hc
    decide
  have hvalue : ∀ c ∈ (":::".toList ++ rest).head?, isValueChar c = false := by
    intro c hc
    obtain rfl : ':' = c := Option.some.inj hc
    decide
  unfold sharedRex render
  rw [List.append_assoc, List.append_assoc, List.append_assoc, Regex.exec,
    Regex.exec_capture_plus _ parameter.name_ne_nil parameter.name_lower hname hequals,
    Regex.exec, Regex.exec_text, Regex.exec,
    Regex.exec_capture_plus _ parameter.value_ne_nil parameter.value_chars hvalue hcolon,
    Regex.exec_text]
  rfl

/-- `shared_rex` finds the parameters of a text of parameters. -/
theorem searchAll_render (parameters : List Parameter) :
    sharedRex.searchAll (parameters.flatMap render) = parameters.map groups :=
  Regex.searchAll_flatMap render groups search_render (by decide) render_ne_nil parameters

/-- A text is the text of one list of parameters only. -/
theorem flatMap_render_injective {first second : List Parameter}
    (h : first.flatMap render = second.flatMap render) : first = second := by
  have hgroups : first.map groups = second.map groups := by
    rw [← searchAll_render, h, searchAll_render]
  exact List.map_injective_iff.mpr (fun _ _ => eq_of_groups) hgroups

/-- The map of the constructor holds the last value of each name, and no other names. -/
theorem params_render (parameters : List Parameter) (name : Str) :
    ParseRequest.params sharedRex (parameters.flatMap render) name =
      (parameters.filter fun parameter => parameter.name = name).getLast?.map value := by
  have hassign (param : Str → Option Str) (parameter : Parameter) :
      ParseRequest.assign param parameter.groups =
        Function.update param parameter.name (some parameter.value) := by
    simp [ParseRequest.assign, groups]
  rw [ParseRequest.params, searchAll_render]
  induction parameters using List.reverseRecOn with
  | nil => rfl
  | append_singleton parameters parameter ih =>
      rw [List.map_append, List.foldl_append, List.map_singleton, List.foldl_cons, List.foldl_nil,
        hassign, List.filter_append]
      by_cases hname : parameter.name = name
      · subst hname
        simp
      · rw [Function.update_of_ne (Ne.symm hname), ih]
        simp [hname]

end Parameter

/-- What `rex` repeats is the text of a parameter. -/
theorem matches_parameter {x : Str} {before after : Regex.Groups Char} :
    (Regex.seq (.plus Char.isLower) (.seq (.text "=".toList)
      (.seq (.plus isValueChar) (.text ":::".toList)))).Matches before x after ↔
      (∃ parameter : Parameter, x = parameter.render) ∧ after = before := by
  simp only [Regex.matches_seq, Regex.matches_plus, Regex.matches_text]
  constructor
  · rintro ⟨name, _, _, rfl, ⟨hname, hlower, rfl⟩, _, _, _, rfl, ⟨rfl, rfl⟩, value, _, _, rfl,
      ⟨hvalue, hchars, rfl⟩, rfl, rfl⟩
    exact ⟨⟨⟨name, value, hname, hlower, hvalue, hchars⟩, by simp [Parameter.render]⟩, rfl⟩
  · rintro ⟨⟨parameter, rfl⟩, rfl⟩
    exact ⟨parameter.name, _, _, by simp [Parameter.render],
      ⟨parameter.name_ne_nil, parameter.name_lower, rfl⟩, _, _, _, rfl, ⟨rfl, rfl⟩,
      parameter.value, _, _, rfl, ⟨parameter.value_ne_nil, parameter.value_chars, rfl⟩, rfl, rfl⟩

/-- Texts of parameters come from a list of parameters. -/
theorem exists_parameters {pieces : List Str}
    (h : ∀ piece ∈ pieces, ∃ parameter : Parameter, piece = parameter.render) :
    ∃ parameters : List Parameter, pieces = parameters.map Parameter.render := by
  induction pieces with
  | nil => exact ⟨[], rfl⟩
  | cons piece pieces ih =>
      rw [List.forall_mem_cons] at h
      obtain ⟨⟨parameter, rfl⟩, hrest⟩ := h
      obtain ⟨parameters, rfl⟩ := ih hrest
      exact ⟨parameter :: parameters, rfl⟩

/-- What `rex` matches: a type in brackets and two to four parameters, which its groups hold. -/
theorem matches_rex {x : Str} {groups : Regex.Groups Char} :
    rex.Matches (fun _ => none) x groups ↔
      ∃ (reqType : Str) (parameters : List Parameter),
        (reqType ≠ [] ∧ ∀ c ∈ reqType, isTypeChar c = true) ∧
        (2 ≤ parameters.length ∧ parameters.length ≤ 4) ∧
        x = "[".toList ++ reqType ++ "]::".toList ++ parameters.flatMap Parameter.render ∧
        groups = Function.update (Function.update (fun _ => none) 1 (some reqType)) 2
          (some (parameters.flatMap Parameter.render)) := by
  simp only [rex, Regex.matches_seq, Regex.matches_capture, Regex.matches_plus, Regex.matches_text,
    Regex.matches_between fun before x after => @matches_parameter x before after]
  constructor
  · rintro ⟨_, _, _, rfl, ⟨rfl, rfl⟩, reqType, _, _, rfl, ⟨_, ⟨htype, hchars, rfl⟩, rfl⟩, _, _, _,
      rfl, ⟨rfl, rfl⟩, _, _, _, rfl, ⟨rfl, rfl⟩, _, ⟨⟨pieces, rfl, hpieces, hleast, hmost⟩, rfl⟩,
      rfl⟩
    obtain ⟨parameters, rfl⟩ := exists_parameters hpieces
    rw [List.length_map] at hleast hmost
    exact ⟨reqType, parameters, ⟨htype, hchars⟩, ⟨hleast, hmost⟩,
      by simp [List.flatMap_def], by simp [List.flatMap_def]⟩
  · rintro ⟨reqType, parameters, ⟨htype, hchars⟩, ⟨hleast, hmost⟩, rfl, rfl⟩
    refine ⟨"[".toList, _, _, ?_, ⟨rfl, rfl⟩, reqType, _, _, rfl, ⟨_, ⟨htype, hchars, rfl⟩, rfl⟩,
      "]".toList, _, _, rfl, ⟨rfl, rfl⟩, "::".toList, _, _, rfl, ⟨rfl, rfl⟩, _,
      ⟨⟨parameters.map Parameter.render, rfl, ?_, ?_, ?_⟩, rfl⟩, ?_⟩
    · simp [List.flatMap_def]
    · rw [List.forall_mem_map]
      exact fun parameter _ => ⟨parameter, rfl⟩
    · rwa [List.length_map]
    · rwa [List.length_map]
    · rw [List.flatMap_def]

/-- The parameters are a decomposition of the second group of a request. -/
structure Decomposes (capture : Option Str) (parameters : List Parameter) : Prop where
  least : 2 ≤ parameters.length
  most : parameters.length ≤ 4
  render : capture = some (parameters.flatMap Parameter.render)

/-- A type and two to four parameters make up a text that `rex` matches, with these as its
groups. -/
theorem fullMatch_request {reqType : Str} {parameters : List Parameter} (hne : reqType ≠ [])
    (hchars : ∀ c ∈ reqType, isTypeChar c = true) (hleast : 2 ≤ parameters.length)
    (hmost : parameters.length ≤ 4) :
    ∃ groups, rex.fullMatch ("[".toList ++ reqType ++ "]::".toList ++
        parameters.flatMap Parameter.render) = some groups ∧
      groups 1 = some reqType ∧ groups 2 = some (parameters.flatMap Parameter.render) := by
  have hmatches := matches_rex.mpr ⟨reqType, parameters, ⟨hne, hchars⟩, ⟨hleast, hmost⟩, rfl, rfl⟩
  obtain ⟨groups, hgroups⟩ := Option.isSome_iff_exists.mp (Regex.fullMatch_complete hmatches)
  obtain ⟨reqType', parameters', htype', _, htext, rfl⟩ :=
    matches_rex.mp (Regex.fullMatch_sound hgroups)
  -- the type ends at the first closing bracket
  have htypeOf (w rest : Str) (hw : ∀ c ∈ w, isTypeChar c = true) :
      (w ++ ']' :: rest).takeWhile isTypeChar = w := by
    have hbracket : isTypeChar ']' = false := by decide
    rw [List.takeWhile_append_of_pos hw, List.takeWhile_cons, hbracket]
    simp
  have hsplit : reqType ++ ']' :: ("::".toList ++ parameters.flatMap Parameter.render) =
      reqType' ++ ']' :: ("::".toList ++ parameters'.flatMap Parameter.render) := by
    simpa using htext
  obtain rfl : reqType = reqType' := by
    rw [← htypeOf reqType _ hchars, hsplit, htypeOf reqType' _ htype'.2]
  have hrest := (List.cons.inj (List.append_cancel_left hsplit)).2
  obtain rfl := Parameter.flatMap_render_injective (List.append_cancel_left hrest)
  exact ⟨_, hgroups, by simp, by simp⟩

/-- The second group of every text that `rex` matches has exactly one decomposition into parameters;
the iteration over the matches of `shared_rex` visits these parameters in order, and the map it
fills holds the last value of each of their names. Every list of two to four parameters makes up
such a text. -/
theorem request_parameters :
    (∀ (text : Str) (groups : Regex.Groups Char), rex.fullMatch text = some groups →
      (∃! parameters, Decomposes (groups 2) parameters) ∧
      ∀ parameters, Decomposes (groups 2) parameters →
        ((sharedRex.searchAll ((groups 2).getD [])).map fun found => (found 1, found 2)) =
          parameters.map (fun parameter => (some parameter.name, some parameter.value)) ∧
        ∀ name, ParseRequest.params sharedRex ((groups 2).getD []) name =
          (parameters.filter fun parameter => parameter.name = name).getLast?.map
            Parameter.value) ∧
    ∀ (reqType : Str) (parameters : List Parameter), reqType ≠ [] →
      (∀ c ∈ reqType, isTypeChar c = true) → 2 ≤ parameters.length → parameters.length ≤ 4 →
      ∃ groups, rex.fullMatch ("[".toList ++ reqType ++ "]::".toList ++
          parameters.flatMap Parameter.render) = some groups ∧
        groups 1 = some reqType ∧ groups 2 = some (parameters.flatMap Parameter.render) := by
  constructor
  · intro text groups hmatch
    obtain ⟨_, parameters, _, ⟨hleast, hmost⟩, rfl, rfl⟩ :=
      matches_rex.mp (Regex.fullMatch_sound hmatch)
    rw [Function.update_self]
    constructor
    · refine ⟨parameters, ⟨hleast, hmost, rfl⟩, fun other hother => ?_⟩
      exact (Parameter.flatMap_render_injective (Option.some.inj hother.render)).symm
    · intro other hother
      obtain rfl := Parameter.flatMap_render_injective (Option.some.inj hother.render)
      rw [Option.getD_some, Parameter.searchAll_render]
      refine ⟨?_, Parameter.params_render parameters⟩
      simp [Parameter.groups]
  · intro reqType parameters
    exact fullMatch_request

end Wheespa
