import LayerLoops.Proofs.Displacement

/-! # Documents one after the other

Lines that leave no statement open can be read apart from the lines behind them. The document of both is the
document of the first, followed by that of the second with all its places moved down, and no statement of one
part, well-formed or not, has a bearing on the other. -/

namespace LayerLoops.Source

/-! ## Scanning -/

def Chunk.down (k : Nat) (c : Chunk) : Chunk := { c with first := c.first + k }

def Pending.down (k : Nat) (p : Pending) : Pending := { p with first := p.first + k }

namespace Scan

def append (s t : Scan) : Scan := ⟨s.chunks ++ t.chunks, s.skipped + t.skipped⟩

def down (k : Nat) (s : Scan) : Scan := { s with chunks := s.chunks.map (Chunk.down k) }

theorem append_assoc (s t u : Scan) : (s.append t).append u = s.append (t.append u) := by
  simp [append, Nat.add_assoc]

theorem down_append (k : Nat) (s t : Scan) : (s.append t).down k = (s.down k).append (t.down k) := by
  simp [append, down]

end Scan

def Pending.extend (p : Pending) (line : String) : Pending :=
  ⟨p.first, line :: p.lines, p.depth + balance (tokens line)⟩

def startedBy (number : Nat) (pending : Option Pending) (line : String) : Option Pending :=
  match pending with
  | some p => some p
  | none => if opensStatement (tokens line) then some ⟨number, [], 0⟩ else none

def pendingBehind (number : Nat) (pending : Option Pending) (line : String) : Option Pending :=
  match startedBy number pending line with
  | none => none
  | some p => if (p.extend line).depth ≤ 0 then none else some (p.extend line)

/-- What a line completes: a statement, or itself if it is skipped. -/
def completedBy (number : Nat) (pending : Option Pending) (line : String) : Scan :=
  match startedBy number pending line with
  | none => { skipped := 1 }
  | some p => if (p.extend line).depth ≤ 0 then { chunks := [(p.extend line).chunk] } else {}

theorem scanFrom_cons (number : Nat) (pending : Option Pending) (line : String) (rest : List String) :
    scanFrom number pending (line :: rest) =
      (completedBy number pending line).append (scanFrom (number + 1) (pendingBehind number pending line) rest) := by
  have hscan : scanFrom number pending (line :: rest) = match startedBy number pending line with
      | none =>
        let s := scanFrom (number + 1) none rest
        { s with skipped := s.skipped + 1 }
      | some p =>
        if (p.extend line).depth ≤ 0 then
          let s := scanFrom (number + 1) none rest
          { s with chunks := (p.extend line).chunk :: s.chunks }
        else scanFrom (number + 1) (some (p.extend line)) rest := by
    cases pending <;> rfl
  rw [hscan, completedBy, pendingBehind]
  cases startedBy number pending line with
  | none => simp [Scan.append, Nat.add_comm]
  | some p => by_cases hp : (p.extend line).depth ≤ 0 <;> simp [hp, Scan.append]

/-- The statement in progress behind some lines. -/
def pendingAfter (number : Nat) (pending : Option Pending) : List String → Option Pending
  | [] => pending
  | line :: rest => pendingAfter (number + 1) (pendingBehind number pending line) rest

/-- The scan of some lines ends with no statement in progress. -/
def Closed (lines : List String) : Prop := pendingAfter 1 none lines = none

instance (lines : List String) : Decidable (Closed lines) := inferInstanceAs (Decidable (_ = none))

theorem scanFrom_append {number : Nat} {pending : Option Pending} {ls : List String}
    (h : pendingAfter number pending ls = none) (ms : List String) :
    scanFrom number pending (ls ++ ms) = (scanFrom number pending ls).append (scanFrom (number + ls.length) none ms) := by
  induction ls generalizing number pending with
  | nil =>
    obtain rfl : pending = none := h
    simp [scanFrom, Scan.append]
  | cons l ls ih =>
    rw [List.cons_append, scanFrom_cons, scanFrom_cons, ih h, Scan.append_assoc, List.length_cons, Nat.add_assoc,
      Nat.add_comm 1]

section Down

variable (k number : Nat) (pending : Option Pending) (line : String)

theorem startedBy_down :
    startedBy (number + k) (pending.map (Pending.down k)) line = (startedBy number pending line).map (Pending.down k) := by
  cases pending with
  | some p => rfl
  | none =>
    simp only [startedBy, Option.map_none]
    split <;> rfl

theorem pendingBehind_down : pendingBehind (number + k) (pending.map (Pending.down k)) line =
    (pendingBehind number pending line).map (Pending.down k) := by
  rw [pendingBehind, pendingBehind, startedBy_down]
  cases startedBy number pending line with
  | none => rfl
  | some p =>
    change (if (p.extend line).depth ≤ 0 then none else _) = _
    by_cases hp : (p.extend line).depth ≤ 0
    · simp only [hp, if_true, Option.map_none]
    · simp only [hp, if_false, Option.map_some]
      rfl

theorem completedBy_down :
    completedBy (number + k) (pending.map (Pending.down k)) line = (completedBy number pending line).down k := by
  rw [completedBy, completedBy, startedBy_down]
  cases startedBy number pending line with
  | none => rfl
  | some p =>
    change (if (p.extend line).depth ≤ 0 then _ else _) = _
    by_cases hp : (p.extend line).depth ≤ 0
    · simp only [hp, if_true]
      rfl
    · simp only [hp, if_false]
      rfl

end Down

theorem scanFrom_down (k number : Nat) (pending : Option Pending) (ls : List String) :
    scanFrom (number + k) (pending.map (Pending.down k)) ls = (scanFrom number pending ls).down k := by
  induction ls generalizing number pending with
  | nil => cases pending <;> rfl
  | cons l ls ih =>
    rw [scanFrom_cons, scanFrom_cons, completedBy_down, pendingBehind_down, Nat.add_right_comm, ih, Scan.down_append]

theorem pendingAfter_down (k number : Nat) (pending : Option Pending) (ls : List String) :
    pendingAfter (number + k) (pending.map (Pending.down k)) ls = (pendingAfter number pending ls).map (Pending.down k) := by
  induction ls generalizing number pending with
  | nil => rfl
  | cons l ls ih => rw [pendingAfter, pendingAfter, pendingBehind_down, Nat.add_right_comm, ih]

theorem pendingAfter_append (number : Nat) (pending : Option Pending) (ls ms : List String) :
    pendingAfter number pending (ls ++ ms) =
      pendingAfter (number + ls.length) (pendingAfter number pending ls) ms := by
  induction ls generalizing number pending with
  | nil => rfl
  | cons l ls ih =>
    rw [List.cons_append, pendingAfter, ih, pendingAfter, List.length_cons, Nat.add_assoc, Nat.add_comm 1]

theorem Closed.append {ls ms : List String} (hl : Closed ls) (hm : Closed ms) : Closed (ls ++ ms) := by
  have h := pendingAfter_down ls.length 1 none ms
  rw [show pendingAfter 1 none ms = none from hm] at h
  unfold Closed at hl ⊢
  rw [pendingAfter_append, hl]
  exact h

theorem scan_append {ls : List String} (h : Closed ls) (ms : List String) :
    scan (ls ++ ms) = (scan ls).append ((scan ms).down ls.length) := by
  rw [scan, scanFrom_append h]
  exact congrArg _ (scanFrom_down ls.length 1 none ms)

/-! ## Reading -/

theorem Chunk.read_down (k : Nat) (file : Option String) (c : Chunk) : (c.down k).read file = moved k (c.read file) := by
  have hoffset : ((c.down k).first : Int) - 1 = (c.first : Int) - 1 + k := by
    simp only [down, Nat.cast_add]
    omega
  have htext : (c.down k).text = c.text := rfl
  unfold Chunk.read
  rw [hoffset, htext, readStatements_down]
  cases readStatements file ((c.first : Int) - 1) c.text with
  | error f => rfl
  | ok ss =>
    change Except.ok _ = Except.ok _
    simp only [List.map_map]
    rfl

/-- Chunks are read to these statements, and these errors are recorded. -/
def Gives (file : Option String) (cs : List Chunk) (ss : List Statement) (es : List Diagnostic) : Prop :=
  (readChunks file cs).outcome = .ok ss ∧ Journal.errors (readChunks file cs).journal = es

namespace Gives

variable {file : Option String} {cs ds : List Chunk} {ss ts : List Statement} {es fs : List Diagnostic}

theorem nil : Gives file [] [] [] := ⟨rfl, rfl⟩

theorem cons_ok {c : Chunk} {us : List Statement} (hc : c.read file = .ok us) (h : Gives file cs ss es) :
    Gives file (c :: cs) (us ++ ss) es := by
  rw [Gives, readChunks, hc]
  simp only [Step.bind_of_ok h.1]
  exact ⟨rfl, by simpa using h.2⟩

theorem cons_error {c : Chunk} {d : Diagnostic} (hc : c.read file = .error (.reported d)) (h : Gives file cs ss es) :
    Gives file (c :: cs) ss (d :: es) := by
  rw [Gives, readChunks, hc]
  exact ⟨h.1, congrArg (d :: ·) h.2⟩

theorem cases_cons {c : Chunk} (h : Gives file (c :: cs) ss es) :
    (∃ us ss', c.read file = .ok us ∧ ss = us ++ ss' ∧ Gives file cs ss' es) ∨
      ∃ d es', c.read file = .error (.reported d) ∧ es = d :: es' ∧ Gives file cs ss es' := by
  rw [Gives, readChunks] at h
  split at h
  · rename_i us hus
    obtain ⟨ss', hss', hsum⟩ := Step.outcome_bind_eq_ok.mp h.1
    rw [Step.bind_of_ok hss'] at h
    cases hsum
    exact .inl ⟨us, ss', hus, rfl, hss', by simpa using h.2⟩
  · rename_i d hd
    exact .inr ⟨d, _, hd, h.2.symm, h.1, rfl⟩
  · cases h.1

theorem append (hc : Gives file cs ss es) (hd : Gives file ds ts fs) :
    Gives file (cs ++ ds) (ss ++ ts) (es ++ fs) := by
  induction cs generalizing ss es with
  | nil =>
    cases hc.1
    cases hc.2
    exact hd
  | cons c cs ih =>
    rcases hc.cases_cons with ⟨us, ss', hus, rfl, h⟩ | ⟨d, es', he, rfl, h⟩
    · rw [List.append_assoc]
      exact cons_ok hus (ih h)
    · exact cons_error he (ih h)

theorem down (k : Nat) (h : Gives file cs ss es) :
    Gives file (cs.map (Chunk.down k)) (ss.map (Statement.down k)) (es.map (Diagnostic.down k)) := by
  induction cs generalizing ss es with
  | nil =>
    cases h.1
    cases h.2
    exact nil
  | cons c cs ih =>
    rcases h.cases_cons with ⟨us, ss', hus, rfl, hrest⟩ | ⟨d, es', he, rfl, hrest⟩
    · rw [List.map_append]
      refine cons_ok ?_ (ih hrest)
      rw [c.read_down, hus]
      rfl
    · refine cons_error ?_ (ih hrest)
      rw [c.read_down, he]
      rfl

end Gives

/-! ## Documents -/

/-- Lines are read to a document, and these errors are recorded. -/
structure Reads (file : Option String) (lines : List String) (d : Document) (es : List Diagnostic) : Prop where
  document : (Document.ofLines file lines).outcome = .ok d
  errors : Journal.errors (Document.ofLines file lines).journal = es

theorem Gives.reads {file : Option String} {lines : List String} {s : Scan} {ss : List Statement}
    {es : List Diagnostic} (hs : scan lines = s) (h : Gives file s.chunks ss es) :
    Reads file lines { file, statements := ss, skipped := s.skipped } es := by
  subst hs
  have hdoc : Document.ofLines file lines = ⟨(readChunks file (scan lines).chunks).journal ++
      [.event (.parsed ss.length (scan lines).skipped)],
      .ok { file, statements := ss, skipped := (scan lines).skipped }⟩ := Step.bind_of_ok h.1
  refine ⟨by rw [hdoc], ?_⟩
  rw [hdoc, Journal.errors_append, h.2]
  exact List.append_nil es

theorem gives_of_short (file : Option String) {lines : List String} (h : ShortLiterals lines) :
    ∃ ss es, Gives file (scan lines).chunks ss es := by
  obtain ⟨ss, hss, -⟩ := readChunks_allows file fun c hc t ht => allows_of_short ht (h c hc t ht)
  exact ⟨ss, _, hss, rfl⟩

/-- Lines behind others that leave no statement open give a document of their own. Both documents are read, with and
without the other, to the same statements, errors and skipped lines, but for the places of the second. A statement
between them that leaves nothing open and cannot be read adds its error and is otherwise passed over. -/
theorem documents_joined (file : Option String) {ls ms : List String} (hclosed : Closed ls) (hl : ShortLiterals ls)
    (hm : ShortLiterals ms) :
    ∃ d e es fs, Reads file ls d es ∧ Reads file ms e fs ∧
      Reads file (ls ++ ms) {
        file
        statements := d.statements ++ e.statements.map (Statement.down ls.length)
        skipped := d.skipped + e.skipped } (es ++ fs.map (Diagnostic.down ls.length)) ∧
      ∀ bad c g, Closed bad → (scan bad).chunks = [c] → c.read file = .error (.reported g) →
        Reads file (ls ++ bad ++ ms) {
          file
          statements := d.statements ++ e.statements.map (Statement.down (ls ++ bad).length)
          skipped := d.skipped + (scan bad).skipped + e.skipped }
          (es ++ [g.down ls.length] ++ fs.map (Diagnostic.down (ls ++ bad).length)) := by
  obtain ⟨ss, es, hls⟩ := gives_of_short file hl
  obtain ⟨ts, fs, hms⟩ := gives_of_short file hm
  refine ⟨_, _, es, fs, hls.reads rfl, hms.reads rfl, ?_, fun bad c g hbad hc hg => ?_⟩
  · exact (hls.append (hms.down ls.length)).reads (scan_append hclosed ms)
  · have hone : Gives file (scan bad).chunks [] [g] := hc ▸ .cons_error hg .nil
    have hfront : Gives file (scan (ls ++ bad)).chunks ss (es ++ [g.down ls.length]) := by
      rw [scan_append hclosed, ← List.append_nil ss]
      exact hls.append (hone.down ls.length)
    have hskipped : (scan (ls ++ bad)).skipped = (scan ls).skipped + (scan bad).skipped := by
      rw [scan_append hclosed]
      rfl
    have h := (hfront.append (hms.down (ls ++ bad).length)).reads (scan_append (hclosed.append hbad) ms)
    simp only [Scan.append, hskipped] at h
    exact h

def brokenOver : List String := ["import keras", "model.add(Conv2D(6, # filters", "  kernel_size=(5, 5)))"]

def malformedLine : List String := ["model.add(Conv2D(6,,))"]

def endedEarly : List String := ["model.add(Dense(10)); model.add(Flatten())", "model.add(Dense(10)"]

/-- The constructors and lines of statements, and the lines of errors. -/
def outline (x : Step Document) : List (String × Int) × List (Option Int) :=
  ((x.outcome.toOption.map Document.statements).getD [] |>.map fun s => (s.call.name, s.location.line),
    (Journal.errors x.journal).map fun d => d.location.map Location.line)

def isReported {α : Type} : Except Fault α → Bool
  | .error (.reported _) => true
  | _ => false

theorem exists_of_isReported {α : Type} {x : Except Fault α} (h : isReported x = true) :
    ∃ d, x = .error (.reported d) := by
  unfold isReported at h
  split at h
  · exact ⟨_, rfl⟩
  · cases h

theorem documents_joined_around_malformed :
    ∃ d e es fs g, Reads none brokenOver d es ∧ Reads none endedEarly e fs ∧
      Reads none (brokenOver ++ malformedLine ++ endedEarly) {
        statements := d.statements ++ e.statements.map (Statement.down 4), skipped := d.skipped + 0 + e.skipped }
        (es ++ [Diagnostic.down 3 g] ++ fs.map (Diagnostic.down 4)) ∧
      outline (Document.ofLines none (brokenOver ++ malformedLine ++ endedEarly)) =
        ([("Conv2D", 2), ("Dense", 5), ("Flatten", 5)], [some 4, some 6]) := by
  have hreported : isReported (Chunk.read none ⟨1, malformedLine⟩) = true := by decide +kernel
  obtain ⟨g, hg⟩ := exists_of_isReported hreported
  have hclosed : Closed brokenOver := by decide +kernel
  have hfront : ShortLiterals brokenOver := by decide +kernel
  have hbehind : ShortLiterals endedEarly := by decide +kernel
  obtain ⟨d, e, es, fs, hd, he, -, hjoined⟩ := documents_joined none hclosed hfront hbehind
  have h := hjoined malformedLine ⟨1, malformedLine⟩ g (by decide +kernel) (by decide +kernel) hg
  have hskipped : (scan malformedLine).skipped = 0 := by decide +kernel
  rw [hskipped] at h
  exact ⟨d, e, es, fs, g, hd, he, h, by decide +kernel⟩

end LayerLoops.Source
