import ShellTemplate.Proofs.Reread.Settle

/-!
# Reading on by one character

A character of the template is written and read as it stands. A blank that ends
no word may leave nothing on the line, and a comment never leaves anything.
-/

namespace ShellTemplate

namespace Scanner

variable {strict : Prop} {b : Nat} {scope : Scope} {s s' t : Scanner} {tokens more : List Token}
  {c : Char}

/-- A character that is written as it stands: no backslash, no white space but the usual, and
no bar that forces a redirection. -/
structure Written (s : Scanner) (c : Char) : Prop where
  backslash : c ≠ '\\'
  blank : isBlank c = true → c ∈ [' ', '\t', '\r', '\n']
  forced : ∀ fd, s.mode = .greater fd → c ≠ '|'

theorem Aligned.reads_char (h : Aligned strict b s tokens t more) (scope : Scope)
    (hmode : s.mode = .plain) (hbody : ¬ (c = '\x60' ∧ s.opensBody = true)) :
    Reads scope t [c] (.ok (t.readChar scope c 0)) ∧
      Parallel scope scope c s t [] (s.readChar scope c 0) (t.readChar scope c 0) := by
  have hwithin : Within s t [] := ⟨by rw [h.frames, List.append_nil], .inl rfl, by simp⟩
  have hclosed : ¬ t.OpensBodyAt scope c := by
    rintro ⟨_, hc, hopen⟩
    rw [settleBefore_of_plain h.mode, opensBody_of_frames h.frames] at hopen
    exact hbody ⟨hc, hopen⟩
  have hreads := Reads.char hclosed
  rw [stepChar_of_plain h.mode] at hreads
  exact ⟨hreads, parallel_readChar hwithin hmode h.mode fun _ _ ↦ h.atWordStart⟩

theorem Ready.push (h : Ready strict b scope c s tokens) {e : Bool} {frames : List Frame}
    (hs : Pushed s s' c e frames)
    (hfollows : Follows strict b scope (fun _ ↦ True) s' tokens)
    (hquote : s.frames ≠ frames → c ∈ ['\'', '"', '(', ')', '\x7d']) :
    Keeps strict b scope s' tokens := by
  refine keeps_of_plain hs.mode hfollows (fun hbare hprevious _ hdigits ↦ ?_) h.closes
  have hcdigit : isDigit c = true := hdigits c (by rw [hs.raw]; simp)
  have hframes : s.frames = [] := by
    rw [← hbare, hs.frames]
    refine of_not_not fun hne ↦ ?_
    have hc := hquote hne
    simp only [List.mem_cons, List.not_mem_nil, or_false] at hc
    rcases hc with rfl | rfl | rfl | rfl | rfl <;> cases hcdigit
  have hprevious' : s.previous ≠ .word := hs.previous ▸ hprevious
  have hsame : ∀ u more', Aligned strict b { s with piece := {} } tokens u more' →
      Aligned strict b { s' with piece := {} } tokens u more' :=
    fun u more' hu ↦ hu.of_same (hbare.trans hframes.symm) rfl hs.previous
  by_cases hraw : s.piece.raw = []
  · obtain ⟨t, more, haligned, _⟩ := h.follows.exists_aligned rfl
    have hword : (assembly tokens).word = none := by
      have hgoing := haligned.going
      rw [iff_false_left hprevious'] at hgoing
      simpa using hgoing
    have hempty : s.piece = {} := haligned.empty hraw
    have hstart := h.start (by simp [Assembly.wordWith, Word.push, hraw, hword])
    refine (hstart.weaken fun d hd ↦ ?_).keep ?_ fun u more' hu ↦
      hsame u more' (hu.of_same rfl hempty.symm rfl)
    · rintro hmem
      simp only [List.mem_cons, List.not_mem_nil, or_false] at hmem
      rcases hd with rfl | hd
      · simp at hmem
      · rcases hmem with rfl | rfl | rfl <;> cases hd
    · simp [line, hraw]
  · have hold := h.digits hframes hprevious' hraw fun d hd ↦
      hdigits d (by rw [hs.raw]; exact List.mem_append_left _ hd)
    exact hold.keep rfl hsame

theorem Ready.emitBlank (h : Ready strict b scope c s tokens) (hbare : s.frames = [])
    (hc : c ∈ [' ', '\t', '\r', '\n']) (hscope : b = 0 → scope = {}) :
    Keeps strict b scope s.emitBlank.1 (tokens ++ s.emitBlank.2.map Lexeme.token) := by
  have hblank := h.blank hc
  by_cases hwritten : s.piece.raw ≠ [] ∨ s.previous ≠ .blank
  · obtain ⟨t, more, haligned, _⟩ := hblank.exists_aligned rfl
    have hline := line_emitBlank b tokens haligned.empty hwritten
    have hpiece : s.emitBlank.1.piece = {} := by rw [emitBlank_eq haligned.empty]
    have hfollows : Follows strict b scope (fun _ ↦ True) s.emitBlank.1
        (tokens ++ s.emitBlank.2.map Lexeme.token) := by
      by_cases hgap : blankAfter b (s.line b tokens) = []
      · -- No word is going on, since its last character would ask for a space.
        obtain ⟨hb, hlast⟩ := getLast?_of_blankAfter hgap
        refine (h.silent hgap).keep (by rw [hline, hgap, List.append_nil]) fun u more' hu ↦ ?_
        refine hu.emitBlank_silent hbare hb (of_not_not fun hraw ↦ ?_)
        obtain ⟨d, hd, hdblank⟩ := hu.ends hbare hraw
        rcases hlast d hd with rfl | rfl <;> cases hdblank
      · have hspace : blankAfter b (s.line b tokens) = [' '] := by
          unfold blankAfter at hgap ⊢
          split_ifs at hgap ⊢ with hb
          · exact (gapAfter_eq _).resolve_left hgap
          · rfl
        refine hblank.extend ' ' [] rfl (by rw [hline, hspace]) fun u more' hu ↦ ?_
        have hubare : u.frames = [] := hu.frames.trans hbare
        exact ⟨_, _, reads_of_readChar hu.mode (by decide) (readChar_blank hubare 0),
          (hu.emitBlank hbare hwritten).alignedFor _⟩
    refine keeps_of_plain ?_ hfollows (fun _ _ hraw ↦ absurd (congrArg Piece.raw hpiece) hraw)
      fun hb _ ↦ ?_
    · rw [emitBlank_eq haligned.empty]
      exact h.mode
    · subst hb
      have hcloses := hblank.closes_endWord (hscope rfl) hbare (h.closes rfl)
      rw [line_of_flushed 0 _ (congrArg Piece.raw hpiece)] at hline
      rw [assembly_emitBlank haligned.going, hline]
      rcases gapAfter_eq (s.line 0 tokens) with hgap | hgap
      · rwa [blankAfter, if_pos rfl, hgap, List.append_nil]
      · rw [blankAfter, if_pos rfl, hgap]
        exact hcloses.blank rfl
  · obtain ⟨hraw, hprevious⟩ := not_or.1 hwritten
    rw [not_not] at hraw hprevious
    rw [emitBlank_of_blank hraw hprevious]
    simpa using keeps_of_plain h.mode (h.resting hraw hprevious) h.digits h.closes

/-- The start of a redirection takes the descriptor number before it off the line. -/
theorem Ready.readAngle (h : Ready strict b scope c s tokens) (hbare : s.frames = [])
    {mode : Option Nat → Mode}
    (hangle : (c = '>' ∧ mode = .greater) ∨ (c = '<' ∧ mode = .less)) :
    Keeps strict b scope (s.readAngle mode) tokens := by
  have hplain : ∀ fd, mode fd ≠ .plain ∧ mode fd ≠ .escape ∧ (mode fd).descriptor? = fd := by
    rcases hangle with ⟨_, rfl⟩ | ⟨_, rfl⟩ <;> simp [Mode.descriptor?]
  unfold Scanner.readAngle
  cases hwritten : s.writtenDescriptor? with
  | none =>
      have hkept : Follows strict b scope _ (s.inMode (mode none)) tokens :=
        h.follows.keep rfl fun _ _ hu ↦ hu.of_same rfl rfl rfl
      exact {
        follows := hkept.weaken fun d hd ↦ by
          rcases hangle with ⟨rfl, rfl⟩ | ⟨rfl, rfl⟩ <;> exact hd
        unescaped := (hplain none).2.1
        digits := fun hmode ↦ absurd hmode (hplain none).1
        undescribed := fun _ ↦ hwritten
        descriptor := fun fd hfd ↦ by
          have hnone : (mode none).descriptor? = some fd := hfd
          rw [(hplain none).2.2] at hnone
          cases hnone
        closes := h.closes }
  | some fd =>
      obtain ⟨hexpands, hprevious, hread⟩ := writtenDescriptor?_eq_some_iff.1 hwritten
      obtain ⟨hraw, hdigits, hsize⟩ := digits_of_readDescriptor? hread
      have hdigitless := h.digits hbare hprevious hraw hdigits
      have hkept : Follows strict b scope _ { s with piece := {}, mode := mode (some fd) } tokens :=
        hdigitless.keep rfl fun _ _ hu ↦ hu.of_same rfl rfl rfl
      exact {
        follows := hkept.weaken fun d hd ↦ by
          rcases hangle with ⟨rfl, rfl⟩ | ⟨rfl, rfl⟩ <;> exact hd
        unescaped := (hplain _).2.1
        digits := fun hmode ↦ absurd hmode (hplain _).1
        undescribed := fun hmode ↦ by
          rcases hangle with ⟨_, rfl⟩ | ⟨_, rfl⟩ <;> simp at hmode
        descriptor := fun fd' hfd ↦ by
          have hsome : (mode (some fd)).descriptor? = some fd' := hfd
          rw [(hplain _).2.2] at hsome
          cases hsome
          exact ⟨rfl, hprevious, hsize⟩
        closes := h.closes }

theorem Ready.readChar (h : Ready strict b scope c s tokens) (hwritten : Written s c)
    (hbody : ¬ (c = '\x60' ∧ s.opensBody = true)) (hscope : b = 0 → scope = {}) :
    Keeps strict b scope (s.readChar scope c 0).1
      (tokens ++ (s.readChar scope c 0).2.map Lexeme.token) := by
  obtain ⟨t, more, haligned, hread⟩ := h.follows.exists_aligned rfl
  obtain ⟨hreads, hparallel⟩ := haligned.reads_char scope h.mode hbody
  have hsound : (t.readChar scope c 0).1.Sound := haligned.sound.move haligned.mode readChar_move
  generalize s.readChar scope c 0 = step at hparallel
  generalize t.readChar scope c 0 = step' at hparallel hreads hsound
  cases hparallel with
  | blank bare hc =>
      refine h.emitBlank bare ?_ hscope
      rcases hc with rfl | rfl | rfl <;> simp
  | operator bare op hop hsingle =>
      have hgap : operatorGap b (s.line b tokens) op = [] := by
        simp only [List.mem_cons, List.not_mem_nil, or_false] at hsingle
        rcases hsingle with rfl | rfl | rfl | rfl <;> rfl
      have hline := line_emitOperator b tokens haligned.empty op
      rw [hgap, List.append_nil, hop] at hline
      refine keeps_emitOperator haligned.empty h.mode bare hscope
        (hread hline hreads ((haligned.emitOperator bare op).alignedFor _)) fun hnewline hb ↦ ?_
      obtain rfl : '\n' = c := by simpa [hnewline, Operator.text] using hop
      subst hb
      exact (h.blank (by simp)).closes_endWord (hscope rfl) bare (h.closes rfl)
  | comment bare hc start =>
      have hraw := haligned.atWordStart_iff.1 start
      have hkept : Follows strict b scope _ (s.inMode .comment) tokens :=
        (h.start hraw).keep rfl fun _ _ hu ↦ hu.of_same rfl rfl rfl
      simp only [List.map_nil, List.append_nil]
      exact {
        follows := hkept.weaken fun d hd ↦ by
          rcases hd with rfl | rfl <;> decide
        unescaped := by simp [inMode]
        digits := fun hmode ↦ by cases hmode
        undescribed := by simp [inMode]
        descriptor := fun fd hfd ↦ by cases hfd
        closes := h.closes }
  | begin bare mode hmode =>
      have hkept : Follows strict b scope _ (s.inMode mode) tokens :=
        h.follows.keep rfl fun _ _ hu ↦ hu.of_same rfl rfl rfl
      simp only [List.map_nil, List.append_nil]
      rcases hmode with ⟨rfl, rfl⟩ | ⟨rfl, rfl⟩ <;> exact {
        follows := hkept
        unescaped := by simp [inMode]
        digits := fun hmode ↦ by cases hmode
        undescribed := by simp [inMode]
        descriptor := fun fd hfd ↦ by cases hfd
        closes := h.closes }
  | angle bare mode hmode => simpa using h.readAngle bare hmode
  | push e e' frames hs ht same marked ordinary quote =>
      rw [List.append_nil] at ht
      simp only [List.map_nil, List.append_nil]
      have hmark : SameMark strict e e' := by
        rw [same haligned.atWordStart]
        exact .refl e
      have hinside : frames ≠ [] ∨ e = true → s.frames = [] → isDigit c = false := by
        rintro (hne | he) hbare
        · have hquote := quote fun heq ↦ hne (heq.symm.trans hbare)
          simp only [List.mem_cons, List.not_mem_nil, or_false] at hquote
          rcases hquote with rfl | rfl | rfl | rfl | rfl <;> rfl
        · exact marked (.inl he)
      have hblank : frames = [] → isBlank c = false := by
        intro hbare
        rw [← Bool.not_eq_true]
        intro hc
        have hwhite := hwritten.blank hc
        by_cases hframes : s.frames = []
        · have hplain := (ordinary hframes hbare).1
          simp only [List.mem_cons, List.not_mem_nil, or_false] at hwhite
          rcases hwhite with rfl | rfl | rfl | rfl <;> exact hplain (by decide)
        · have hquote := quote fun heq ↦ hframes (heq.trans hbare)
          simp only [List.mem_cons, List.not_mem_nil, or_false] at hquote
          rcases hquote with rfl | rfl | rfl | rfl | rfl <;> cases hc
      have hpushed := haligned.push hs ht hmark hsound hinside hblank
      refine h.push hs (hread (line_push b tokens hs) hreads ?_) quote
      simpa using hpushed.alignedFor _
  | backslash _ hc => exact absurd hc hwritten.backslash
  | dollar _ hc =>
      simp only [List.map_nil, List.append_nil]
      exact {
        follows := (h.dollar hc).keep rfl fun _ _ hu ↦ hu.of_same rfl rfl rfl
        unescaped := by simp [inMode]
        digits := fun hmode ↦ by cases hmode
        undescribed := by simp [inMode]
        descriptor := fun fd hfd ↦ by cases hfd
        closes := h.closes }

theorem Keeps.openExpansion (h : Keeps strict b scope s tokens) (hs : s.Sound)
    (hmode : s.mode = .dollar 0) {frame : Frame}
    (hframe : (c = '\x7b' ∧ frame = .parameter 0) ∨ (c = '(' ∧ frame = .substitution 0 0)) :
    Keeps strict b scope
      ((((s.inMode .plain).push scope ['$', c] ['$', c]).markExpands).enter frame) tokens := by
  have hnext : nextChar strict s '$' := by
    unfold nextChar
    rw [hmode]
    exact .inl rfl
  have hdigit : isDigit c = false := by
    rcases hframe with ⟨rfl, _⟩ | ⟨rfl, _⟩ <;> rfl
  have hpushed : ∀ u : Scanner, Pushed u ((u.inMode .plain).pushChar scope '$') '$' false u.frames ∧
      Pushed ((u.inMode .plain).pushChar scope '$')
        ((((u.inMode .plain).push scope ['$', c] ['$', c]).markExpands).enter frame) c true
        (frame :: u.frames) := fun u ↦
    ⟨⟨rfl, rfl, rfl, rfl, (Bool.or_false _).symm⟩, ⟨rfl, rfl, rfl,
      (List.append_assoc u.piece.raw ['$'] [c]).symm, (Bool.or_true _).symm⟩⟩
  have hline := (line_push b tokens (hpushed s).2).trans
    (congrArg (· ++ [c]) (line_push b tokens (hpushed s).1))
  refine keeps_of_plain rfl (h.follows.extend '$' [c] hnext (by simpa using hline)
    fun t more ht ↦ ?_) (fun hbare ↦ by cases hbare) h.closes
  have hsingle : t.inSingle = false := by
    rw [inSingle_of_frames ht.frames]
    exact hs.dollar 0 hmode
  have hopen : Reads scope t ['$', c] _ := reads_openExpansion ht.mode hsingle hframe
  have hnested : (frame :: t.frames).IsChain Frame.OpensIn := ht.sound.enter frame fun outer houter ↦
    ⟨by rcases hframe with ⟨_, rfl⟩ | ⟨_, rfl⟩ <;> simp [Frame.isQuote],
      inSingle_eq_false_iff.1 hsingle outer houter⟩
  have hpushed' := hpushed t
  rw [ht.frames] at hpushed'
  have hfirst := ht.push (hpushed s).1 hpushed'.1 (.refl false)
    (sound_of_pushed rfl ht.sound.nested (by simp [pushChar, Scanner.push, inMode]))
    (fun _ _ ↦ rfl) fun _ ↦ rfl
  have hsecond := hfirst.push (hpushed s).2 hpushed'.2 (.refl true)
    (sound_of_pushed rfl hnested (by simp [Scanner.push, Scanner.enter, markExpands]))
    (fun _ _ ↦ hdigit) fun hbare ↦ by cases hbare
  exact ⟨_, _, hopen, by simpa using hsecond.alignedFor _⟩

theorem Keeps.completeOperator (h : Keeps strict b scope s tokens) (hs : s.Sound)
    (hscope : b = 0 → scope = {}) {pending op : Operator} (hpending : s.mode.pending? = some pending)
    (hcompleted : s.mode.completed? c = some op) (hforced : ∀ fd, s.mode = .greater fd → c ≠ '|') :
    Keeps strict b scope ((s.inMode .plain).emitOperator op).1
      (tokens ++ ((s.inMode .plain).emitOperator op).2.map Lexeme.token) := by
  have hbare := hs.bare_of_pending hpending
  have hempty := (hs.settled (ne_escape_of_pending hpending)).piece_empty rfl
  obtain ⟨htext, hgap⟩ := (Mode.text_completed? hpending hcompleted).resolve_left
    fun ⟨_, hc, fd, hfd⟩ ↦ hforced fd hfd hc
  have hop : op ≠ .newline := by
    rintro rfl
    obtain ⟨d, hlast, _⟩ := getLast?_text (ne_newline_of_pending hpending)
    have hnil : pending.text = [] := by
      have hlength := congrArg List.length htext
      simpa [Operator.text] using hlength
    rw [hnil] at hlast
    cases hlast
  refine keeps_emitOperator hempty rfl hbare hscope ?_ fun hnewline ↦ absurd hnewline hop
  obtain ⟨d, rest, hpendingText, hnext⟩ :=
    @nextChar_pending strict b s pending hpending (s.line b tokens)
  refine h.follows.extend d (rest ++ [c]) hnext ?_ fun t more ht ↦ ?_
  · rw [line_emitOperator b tokens hempty, htext, ← List.cons_append, ← hpendingText]
    simp only [List.append_assoc]
    rw [← hgap]
    rfl
  · obtain ⟨t', lexemes, hreads, hmode, haligned⟩ :=
      ht.reads_pending scope hbare hpending h.undescribed h.descriptor
    have hcomplete : t'.complete? scope c = some ((t'.inMode .plain).emitOperator op) := by
      rw [complete?_of_pending (by rw [hmode, hpending]), hmode, hcompleted]
      rfl
    have hclosed : ¬ t'.OpensBodyAt scope c := by
      rintro ⟨hnone, _⟩
      rw [hcomplete] at hnone
      cases hnone
    have hchar := Reads.char hclosed
    rw [Scanner.stepChar, hcomplete] at hchar
    have hboth := hreads.append hchar
    rw [hpendingText] at hboth
    have hstep := haligned.emitOperator hbare op
    rw [List.append_assoc, ← List.map_append] at hstep
    exact ⟨_, _, hboth, hstep.alignedFor _⟩

/-- The newline behind a comment is written; the comment is not. -/
theorem Keeps.endComment (h : Keeps strict b scope s tokens) (hs : s.Sound)
    (hscope : b = 0 → scope = {}) (hmode : s.mode = .comment) :
    Keeps strict b scope ((s.inMode .plain).emitOperator .newline).1
      (tokens ++ ((s.inMode .plain).emitOperator .newline).2.map Lexeme.token) := by
  have hbare : s.frames = [] := hs.bare (by simp [hmode, Mode.isBare])
  have hempty := (hs.settled (by simp [hmode])).piece_empty rfl
  have hsettled : Follows strict b scope (fun d ↦ d = '\n' ∨ d = ' ') (s.inMode .plain) tokens := by
    have hfollows := h.follows
    rw [nextChar, hmode] at hfollows
    exact hfollows.keep rfl fun _ _ hu ↦ hu.of_same rfl rfl rfl
  refine keeps_emitOperator hempty rfl hbare hscope ?_ fun _ hb ↦ ?_
  · refine hsettled.extend '\n' [] (.inl rfl) ?_ fun t more ht ↦ ?_
    · rw [line_emitOperator b tokens hempty]
      simp [operatorGap, Operator.text]
    · have hread : t.readChar scope '\n' 0 = t.emitOperator .newline :=
        readChar_operator (ht.frames.trans hbare) rfl (by simp) 0
      exact ⟨_, _, reads_of_readChar ht.mode (by decide) hread,
        (ht.emitOperator hbare .newline).alignedFor _⟩
  · subst hb
    have hblank : Follows strict 0 scope (fun d ↦ d = ' ') (s.inMode .plain) tokens :=
      hsettled.weaken fun _ hd ↦ .inr hd
    exact hblank.closes_endWord (hscope rfl) hbare (h.closes rfl)

theorem Keeps.completion (h : Keeps strict b scope s tokens) (hs : s.Sound) (herase : s.erase = s)
    (hscope : b = 0 → scope = {}) (hwritten : Written s c) {step : Step}
    (hstep : s.complete? scope c = some step) :
    Keeps strict b scope step.1 (tokens ++ step.2.map Lexeme.token) := by
  have hplace : ∀ opened, s.mode = .dollar opened → opened = 0 := by
    intro opened hmode
    have heq := congrArg Scanner.mode herase
    simp only [erase, hmode, Mode.erase, Mode.dollar.injEq] at heq
    exact heq.symm
  have hcompletion := complete_completion hstep
  cases hcompletion with
  | commentOn _ _ => simpa using h
  | commentEnd hmode _ => exact h.endComment hs hscope hmode
  | escaped hmode => exact absurd hmode h.unescaped
  | openParameter opened hmode hc =>
      subst hc
      obtain rfl := hplace opened hmode
      simpa using h.openExpansion hs hmode (.inl ⟨rfl, rfl⟩)
  | openSubstitution opened hmode hc =>
      subst hc
      obtain rfl := hplace opened hmode
      simpa using h.openExpansion hs hmode (.inr ⟨rfl, rfl⟩)
  | operator pending op hpending _ _ =>
      rw [complete?_of_pending hpending] at hstep
      obtain ⟨op', hcompleted, heq⟩ := Option.map_eq_some_iff.1 hstep
      rw [← heq]
      exact h.completeOperator hs hscope hpending hcompleted hwritten.forced

theorem Keeps.stepChar (h : Keeps strict b scope s tokens) (hs : s.Sound) (herase : s.erase = s)
    (hscope : b = 0 → scope = {}) (hwritten : Written s c) (hclosed : ¬ s.OpensBodyAt scope c) :
    Keeps strict b scope (s.stepChar scope c 0).1
      (tokens ++ (s.stepChar scope c 0).2.map Lexeme.token) := by
  unfold Scanner.stepChar
  cases hc : s.complete? scope c with
  | some step => exact h.completion hs herase hscope hwritten hc
  | none =>
      have hready := h.settle hs hscope hc
      have hplain : Written (s.settleBefore scope c).1 c :=
        ⟨hwritten.backslash, hwritten.blank, fun fd hfd ↦ by
          rw [hready.mode] at hfd
          cases hfd⟩
      have hkeeps := hready.readChar hplain (fun hbody ↦ hclosed ⟨hc, hbody⟩) hscope
      simpa using hkeeps

end Scanner

end ShellTemplate
