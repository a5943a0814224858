import LayerLoops.Log
import LayerLoops.Proofs.Outcome

/-! # What operations on files change

Only the contents of files count here: directories may be made on the way. Each operation changes the content
at the place that its path leads to, and at no other. -/

namespace LayerLoops

namespace Files

/-- The content of the file at a place, if a file is there. -/
def content? (fs : Files) (q : FilePlace) : Option Content :=
  match fs.find? q with
  | some (.file c) => some c
  | _ => none

/-- The files outside the places `P` are the same. -/
def Agree (P : FilePlace → Prop) (fs gs : Files) : Prop := ∀ q, ¬ P q → gs.content? q = fs.content? q

/-- No text is lost: each is still there, and has grown only at the places `P`. -/
def Grows (P : FilePlace → Prop) (fs gs : Files) : Prop :=
  ∀ q s, fs.content? q = some (.text s) → ∃ more, gs.content? q = some (.text (s ++ more)) ∧ (P q ∨ more = "")

variable {P Q : FilePlace → Prop} {fs gs hs : Files} {p q : FilePlace} {path : String}

theorem agree_of_eq (h : gs.content? = fs.content?) : Agree P fs gs := fun q _ => congrFun h q

theorem Agree.refl (P : FilePlace → Prop) (fs : Files) : Agree P fs fs := agree_of_eq rfl

theorem Agree.trans (h₁ : Agree P fs gs) (h₂ : Agree P gs hs) : Agree P fs hs :=
  fun q hq => (h₂ q hq).trans (h₁ q hq)

theorem Agree.mono (h : Agree P fs gs) (hPQ : ∀ q, P q → Q q) : Agree Q fs gs :=
  fun q hq => h q fun hp => hq (hPQ q hp)

theorem Grows.refl (P : FilePlace → Prop) (fs : Files) : Grows P fs fs :=
  fun _ s hq => ⟨"", by rw [String.append_empty]; exact hq, .inr rfl⟩

theorem Grows.mono (h : Grows P fs gs) (hPQ : ∀ q, P q → Q q) : Grows Q fs gs := by
  intro q s hq
  obtain ⟨more, hmore, hp⟩ := h q s hq
  exact ⟨more, hmore, hp.imp_left (hPQ q)⟩

theorem Grows.trans (h₁ : Grows P fs gs) (h₂ : Grows P gs hs) : Grows P fs hs := by
  intro q s hq
  obtain ⟨more, hmore, hp⟩ := h₁ q s hq
  obtain ⟨rest, hrest, hp'⟩ := h₂ q _ hmore
  refine ⟨more ++ rest, by rw [hrest, String.append_assoc], ?_⟩
  rcases hp with hp | rfl
  · exact .inl hp
  · rcases hp' with hp' | rfl
    · exact .inl hp'
    · exact .inr rfl

/-! ## Entries -/

theorem lookup_cons_eq_ite (p q : FilePlace) (e : FileEntry) (entries : List (FilePlace × FileEntry)) :
    ((p, e) :: entries).lookup q = if q = p then some e else entries.lookup q := by
  rw [List.lookup_cons]
  by_cases h : q = p
  · rw [if_pos h, beq_iff_eq.mpr h]
  · rw [if_neg h, beq_eq_false_iff_ne.mpr h]

theorem lookup_replace (entries : List (FilePlace × FileEntry)) (p q : FilePlace) (e : FileEntry) :
    (entries.map fun (r, old) => if r = p then (r, e) else (r, old)).lookup q =
      if q = p then (entries.lookup q).map fun _ => e else entries.lookup q := by
  induction entries with
  | nil => simp
  | cons x entries ih =>
    obtain ⟨r, old⟩ := x
    rw [List.map_cons]
    dsimp only
    by_cases hr : r = p
    · rw [if_pos hr, lookup_cons_eq_ite, lookup_cons_eq_ite, ih, hr]
      by_cases hq : q = p <;> simp [hq]
    · rw [if_neg hr, lookup_cons_eq_ite, lookup_cons_eq_ite, ih]
      by_cases hq : q = r <;> simp [hq, hr]

theorem lookup_put (fs : Files) (p q : FilePlace) (e : FileEntry) :
    (fs.put p e).entries.lookup q = if q = p then some e else fs.entries.lookup q := by
  unfold put
  by_cases hany : (fs.entries.any (·.1 == p)) = true
  · rw [if_pos hany, lookup_replace]
    by_cases hq : q = p
    · have hsome : fs.entries.lookup q ≠ none := by
        rw [ne_eq, List.lookup_eq_none_iff]
        grind
      obtain ⟨old, hold⟩ := Option.ne_none_iff_exists'.mp hsome
      rw [if_pos hq, if_pos hq, hold, Option.map_some]
    · rw [if_neg hq, if_neg hq]
  · have hnone : fs.entries.lookup p = none := by
      rw [List.lookup_eq_none_iff]
      grind
    rw [if_neg hany, List.lookup_append, lookup_cons_eq_ite]
    by_cases hq : q = p
    · rw [if_pos hq, if_pos hq, hq, hnone, Option.none_or]
    · rw [if_neg hq, if_neg hq, List.lookup_nil, Option.or_none]

theorem lookup_filter_ne (entries : List (FilePlace × FileEntry)) (h : q ≠ p) :
    (entries.filter (·.1 ≠ p)).lookup q = entries.lookup q := by
  induction entries with
  | nil => rfl
  | cons x entries ih =>
    obtain ⟨r, e⟩ := x
    by_cases hr : r = p
    · rw [List.filter_cons_of_neg (by simpa using hr), ih, lookup_cons_eq_ite, if_neg (hr ▸ h)]
    · rw [List.filter_cons_of_pos (by simpa using hr), lookup_cons_eq_ite, lookup_cons_eq_ite, ih]

/-! ## Contents -/

theorem content?_eq (fs : Files) (q : FilePlace) :
    fs.content? q = if q = ["/"] ∨ q.all (· == "..") = true then none else
      match fs.entries.lookup q with
      | some (.file c) => some c
      | _ => none := by
  unfold content? find?
  by_cases hq : q = ["/"] ∨ q.all (· == "..") = true
  · rw [if_pos hq, if_pos hq]
  · rw [if_neg hq, if_neg hq]
    cases fs.entries.lookup q with
    | some e => rfl
    | none =>
      dsimp only
      by_cases hbelow : (fs.entries.any fun (r, _) => q.isPrefixOf r) = true
      · rw [if_pos hbelow]
      · rw [if_neg hbelow]

theorem content?_congr (h : gs.entries.lookup q = fs.entries.lookup q) : gs.content? q = fs.content? q := by
  rw [content?_eq, content?_eq, h]

theorem agree_put (fs : Files) (p : FilePlace) (e : FileEntry) : Agree (· = p) fs (fs.put p e) :=
  fun q hq => content?_congr (by rw [lookup_put, if_neg hq])

theorem content?_put_self (h : fs.find? p ≠ some .directory) (c : Content) :
    (fs.put p (.file c)).content? p = some c := by
  have hp : ¬ (p = ["/"] ∨ p.all (· == "..") = true) := fun hp => h (by rw [find?, if_pos hp])
  rw [content?_eq, if_neg hp, lookup_put, if_pos rfl]

theorem content?_put_directory (h : fs.content? p = none) : (fs.put p .directory).content? = fs.content? := by
  funext q
  by_cases hq : q = p
  · rw [hq, h, content?_eq, lookup_put, if_pos rfl, ite_self]
  · exact agree_put fs p .directory q hq

theorem find?_of_content? {c : Content} (h : fs.content? p = some c) : fs.find? p = some (.file c) := by
  unfold content? at h
  split at h
  · cases h
    assumption
  · cases h

/-! ## Paths -/

theorem walk_ok {start : FilePlace} {names : List String} (h : fs.walk start names = .ok p) :
    p = (names.filter fun s => s ≠ "" ∧ s ≠ ".").foldl
      (fun p name => if name = ".." then placeAbove p else p ++ [name]) start := by
  induction names generalizing start with
  | nil =>
    cases h
    rfl
  | cons name names ih =>
    simp only [walk, List.foldlM_cons, bind_eq_ok] at h
    obtain ⟨next, hstep, hrest⟩ := h
    rw [ih hrest]
    unfold step at hstep
    split at hstep
    · cases hstep
    · cases hstep
    · split_ifs at hstep with hskip hup
      · cases hstep
        rw [List.filter_cons_of_neg (by simpa using fun h => hskip.resolve_left h)]
      · cases hstep
        rw [List.filter_cons_of_pos (by simpa using hskip), List.foldl_cons, if_pos hup]
      · cases hstep
        rw [List.filter_cons_of_pos (by simpa using hskip), List.foldl_cons, if_neg hup]

theorem locate_eq_placeOf (h : fs.locate path = .ok p) : p = placeOf path := by
  unfold locate at h
  split at h
  · cases h
  · split at h
    · cases h
    · split at h
      · cases h
      · split at h
        · cases h
        · exact walk_ok ((mapError_ok_iff _ _ _).mp h)

/-! ## Operations -/

theorem makeOne_content (h : fs.makeOne path = .ok gs) : gs.content? = fs.content? := by
  simp only [makeOne, bind_eq_ok] at h
  obtain ⟨p, -, h⟩ := h
  split_ifs at h with hsome
  cases h
  apply content?_put_directory
  rw [content?, Option.not_isSome_iff_eq_none.mp hsome]

theorem tolerant_content {made : Except Fault Files} (h : makeNamed.tolerant fs path made = .ok gs)
    (hmade : ∀ gs, made = .ok gs → gs.content? = fs.content?) : gs.content? = fs.content? := by
  unfold makeNamed.tolerant at h
  split at h
  · cases h
  · split_ifs at h
    cases h
    rfl
  · exact hmade gs h

theorem makeNamed_content {root : String} {names : List String} (h : fs.makeNamed root names = .ok gs) :
    gs.content? = fs.content? := by
  induction names generalizing gs with
  | nil => exact tolerant_content h fun _ => makeOne_content
  | cons name above ih =>
    unfold makeNamed at h
    dsimp only at h
    split at h
    · obtain ⟨middle, hmiddle, h⟩ := bind_eq_ok.mp h
      exact (tolerant_content h fun _ => makeOne_content).trans (ih hmiddle)
    · exact tolerant_content h fun _ => makeOne_content

theorem makeDirectory_content (h : fs.makeDirectory path = .ok gs) : gs.content? = fs.content? := makeNamed_content h

theorem agree_remove (h : fs.remove path = .ok gs) : Agree (· = placeOf path) fs gs := by
  simp only [remove, bind_eq_ok] at h
  obtain ⟨p, hp, e, -, h⟩ := h
  cases e with
  | directory => cases h
  | file c =>
    cases h
    rw [← locate_eq_placeOf hp]
    exact fun q hq => content?_congr (lookup_filter_ne _ hq)

theorem agree_appendAt (fs : Files) (p : FilePlace) (text : String) : Agree (· = p) fs (fs.appendAt p text) := by
  unfold appendAt
  split <;> exact agree_put fs p _

theorem grows_appendAt (fs : Files) (p : FilePlace) (text : String) : Grows (· = p) fs (fs.appendAt p text) := by
  intro q s hs
  by_cases hq : q = p
  · rw [hq] at hs ⊢
    have hfind := find?_of_content? hs
    refine ⟨text, ?_, .inl rfl⟩
    simp only [appendAt, hfind]
    exact content?_put_self (by rw [hfind]; nofun) _
  · refine ⟨"", ?_, .inr rfl⟩
    rw [agree_appendAt fs p text q hq, hs, String.append_empty]

theorem agree_writeText (fs : Files) (path text : String) :
    Agree (· = placeOf path) fs (fs.writeText path text).1 := by
  unfold writeText
  split
  · exact Agree.refl _ fs
  · rename_i p hp
    rw [← locate_eq_placeOf hp]
    split_ifs
    · exact Agree.refl _ fs
    · split <;> exact agree_put fs p _

theorem writeText_content {text : String} {u : Unit} (h : fs.writeText path text = (gs, .ok u)) :
    gs.content? (placeOf path) = some (.text text) := by
  unfold writeText at h
  split at h
  · cases h
  · rename_i p hp
    rw [← locate_eq_placeOf hp]
    by_cases hdirectory : fs.find? p = some .directory
    · rw [if_pos hdirectory] at h
      cases h
    · rw [if_neg hdirectory] at h
      split at h
      · cases h
      · cases h
        exact content?_put_self hdirectory _

end Files

/-! ## Files in a directory -/

theorem slashed_ne_nil (cs : List Char) : slashed cs ≠ [] := by
  fun_induction slashed cs <;> simp

theorem slashed_append_slash (xs ys : List Char) : slashed (xs ++ '/' :: ys) = slashed xs ++ slashed ys := by
  fun_induction slashed xs with
  | case1 => rfl
  | case2 cs ih => rw [List.cons_append, slashed, ih, List.cons_append]
  | case3 c cs hc first rest heq ih =>
    rw [List.cons_append, slashed, ih, heq]
    · rfl
    · exact hc
  | case4 c cs hc heq => exact absurd heq (slashed_ne_nil cs)

theorem slashed_of_not_mem {cs : List Char} (h : '/' ∉ cs) : slashed cs = [cs] := by
  fun_induction slashed cs with
  | case1 => rfl
  | case2 cs => simp at h
  | case3 c cs hc first rest heq ih =>
    rw [ih (fun hm => h (List.mem_cons_of_mem c hm))] at heq
    cases heq
    rfl
  | case4 c cs hc heq => exact absurd heq (slashed_ne_nil cs)

theorem pathNames_append_slash (s t : String) : pathNames (s ++ "/" ++ t) = pathNames s ++ pathNames t := by
  have hchars : (s ++ "/" ++ t).toList = s.toList ++ '/' :: t.toList := by simp
  rw [pathNames, hchars, slashed_append_slash, List.map_append, List.filter_append]
  rfl

/-- A name that leads from a directory to a place in it. -/
structure IsFileName (name : String) : Prop where
  whole : '/' ∉ name.toList
  nonempty : name ≠ ""
  ne_dot : name ≠ "."
  ne_up : name ≠ ".."

theorem IsFileName.pathNames {name : String} (h : IsFileName name) : pathNames name = [name] := by
  rw [LayerLoops.pathNames, slashed_of_not_mem h.whole]
  simp [h.nonempty, h.ne_dot]

theorem IsFileName.placeOf_below {name : String} (h : IsFileName name) {path front : String}
    (hpath : path = front ++ "/" ++ name) : ∃ place, placeOf path = place ++ [name] := by
  unfold placeOf
  rw [hpath, pathNames_append_slash, h.pathNames, List.foldl_append, List.foldl_cons, List.foldl_nil,
    if_neg h.ne_up]
  exact ⟨_, rfl⟩

theorem IsFileName.placeOf_joinPath {name : String} (h : IsFileName name) (directory : String) :
    ∃ place, placeOf (joinPath directory name) = place ++ [name] := by
  unfold joinPath
  dsimp only
  split_ifs with hdot hslash
  · unfold placeOf
    rw [h.pathNames, List.foldl_cons, List.foldl_nil, if_neg h.ne_up]
    exact ⟨_, rfl⟩
  · obtain ⟨front, hfront⟩ := String.endsWith_char_iff_exists_append.mp hslash
    exact h.placeOf_below (by rw [hfront]; rfl)
  · exact h.placeOf_below rfl

end LayerLoops
