import ExprForest.Proofs.Text.Sequences

namespace ExprForest.Text.Utf8

/-!
# Reading all bytes

* `Lossy` — the characters of bytes, one replacement character for each ill-formed sequence;
* `Cuts` — bytes cut into pieces, and `cuts_pieces` — what `pieces` does;
* `encode_inj` — different characters have different bytes;
* `length_encode_le_of_illFormed` — no encoding reaches into the first ill-formed sequence;
* `read_encode`, `read_cases` — the reader gives the text whose bytes it reads, or sets the first
  ill-formed sequence apart from the encoding before it.
-/

/-- The characters of some bytes, with one replacement character for each ill-formed sequence. -/
inductive Lossy : List UInt8 → List Char → Prop
  | nil : Lossy [] []
  | char (c : Char) {bs : List UInt8} {cs : List Char} :
      Lossy bs cs → Lossy (String.utf8EncodeChar c ++ bs) (c :: cs)
  | bad {bad bs : List UInt8} {cs : List Char} :
      IllFormed bad bs → Lossy bs cs → Lossy (bad ++ bs) ('\ufffd' :: cs)

/-- Bytes cut into pieces from left to right. -/
inductive Cuts : List UInt8 → List Piece → Prop
  | nil : Cuts [] []
  | char {c : Char} {b : UInt8} {zs bs : List UInt8} {ps : List Piece} :
      String.utf8EncodeChar c = b :: zs → Cuts bs ps → Cuts ((b :: zs) ++ bs) (.char c zs.length :: ps)
  | bad {b : UInt8} {zs bs : List UInt8} {ps : List Piece} :
      IllFormed (b :: zs) bs → Cuts bs ps → Cuts ((b :: zs) ++ bs) (.bad b zs :: ps)

variable {bytes bad behind : List UInt8} {cs ds before : List Char} {ps : List Piece}

/-! ### Pieces -/

/-- The pieces of some bytes come behind those already cut off. -/
theorem exists_cuts_piecesFrom (done : List Piece) (bytes : List UInt8) :
    ∃ ps, piecesFrom done bytes = done.reverse ++ ps ∧ Cuts bytes ps := by
  fun_induction piecesFrom done bytes with
  | case1 done => exact ⟨[], (List.append_nil _).symm, .nil⟩
  | case2 done b bs piece hshorter ih =>
    obtain ⟨ps, hps, hcuts⟩ := ih
    refine ⟨piece :: ps, ?_, ?_⟩
    · rw [hps, List.reverse_cons, List.append_assoc, List.singleton_append]
    · rcases pieceAt_cases b bs with
        ⟨c, zs, behind, rfl, hc, hpiece⟩ | ⟨zs, behind, rfl, hbad, hpiece⟩
      · have hdrop : (zs ++ behind).drop piece.following = behind := by
          rw [show piece = .char c zs.length from hpiece, Piece.following, List.drop_left]
        rw [hdrop] at hcuts
        rw [show piece = .char c zs.length from hpiece]
        exact .char hc hcuts
      · have hdrop : (zs ++ behind).drop piece.following = behind := by
          rw [show piece = .bad b zs from hpiece, Piece.following, List.drop_left]
        rw [hdrop] at hcuts
        rw [show piece = .bad b zs from hpiece]
        exact .bad hbad hcuts

theorem cuts_pieces (bytes : List UInt8) : Cuts bytes (pieces bytes) := by
  obtain ⟨ps, hps, hcuts⟩ := exists_cuts_piecesFrom [] bytes
  rw [pieces, hps]
  exact hcuts

/-- The characters of the pieces are the lossy reading. -/
theorem Cuts.lossy (h : Cuts bytes ps) : Lossy bytes (ps.map Piece.lossy) := by
  induction h with
  | nil => exact .nil
  | char hc _ ih =>
    rw [← hc]
    exact .char _ ih
  | bad hbad _ ih => exact .bad hbad ih

/-- Pieces without an ill-formed sequence are characters with their bytes. -/
theorem Cuts.eq_encode {seen : List Char} (h : Cuts bytes ps) (hnone : malformedFrom? seen ps = none) :
    bytes = encode (ps.map Piece.lossy) := by
  induction h generalizing seen with
  | nil => rfl
  | char hc _ ih => rw [List.map_cons, encode_cons, Piece.lossy, hc, ← ih hnone]
  | bad => cases hnone

/-- The first ill-formed sequence among pieces stands behind characters with their bytes. -/
theorem Cuts.of_malformedFrom? {seen : List Char} (h : Cuts bytes ps)
    (hsome : malformedFrom? seen ps = some (before, bad)) :
    ∃ cs behind rest, before = seen.reverse ++ cs ∧ bytes = encode cs ++ (bad ++ behind) ∧
      IllFormed bad behind ∧ ps.map Piece.lossy = cs ++ '\ufffd' :: rest := by
  induction h generalizing seen with
  | nil => cases hsome
  | @char c b zs bs ps hc _ ih =>
    obtain ⟨cs, behind, rest, rfl, rfl, hbad, hlossy⟩ := ih hsome
    refine ⟨c :: cs, behind, rest, ?_, ?_, hbad, ?_⟩
    · rw [List.reverse_cons, List.append_assoc, List.singleton_append]
    · rw [encode_cons, hc, List.append_assoc]
    · rw [List.map_cons, hlossy, Piece.lossy, List.cons_append]
  | @bad b zs bs ps hbad _ _ =>
    obtain ⟨rfl, rfl⟩ := Prod.mk.inj (Option.some.inj hsome)
    exact ⟨[], bs, ps.map Piece.lossy, (List.append_nil _).symm, rfl, hbad, rfl⟩

/-! ### Encodings -/

/-- The bytes of a character are not the start of another one's. -/
theorem encodeChar_append_inj {c d : Char} {xs ys : List UInt8}
    (h : String.utf8EncodeChar c ++ xs = String.utf8EncodeChar d ++ ys) : c = d ∧ xs = ys := by
  obtain ⟨b, zs, hc⟩ := List.exists_cons_of_ne_nil (@String.utf8EncodeChar_ne_nil c)
  obtain ⟨b', zs', hd⟩ := List.exists_cons_of_ne_nil (@String.utf8EncodeChar_ne_nil d)
  have hpieces : pieceAt b (zs ++ xs) = pieceAt b' (zs' ++ ys) := by
    rw [hc, hd, List.cons_append, List.cons_append] at h
    obtain ⟨rfl, htail⟩ := List.cons.inj h
    rw [htail]
  -- both are read at the same bytes
  rw [pieceAt_of_encodeChar hc, pieceAt_of_encodeChar hd] at hpieces
  obtain ⟨rfl, -⟩ := Piece.char.inj hpieces
  exact ⟨rfl, List.append_cancel_left h⟩

/-- Different characters have different bytes. -/
theorem encode_inj : encode cs = encode ds ↔ cs = ds := by
  refine ⟨fun h => ?_, congrArg encode⟩
  have htexts : String.ofList cs = String.ofList ds := by
    rw [← String.toByteArray_inj, toByteArray_eq_encode, toByteArray_eq_encode, String.toList_ofList,
      String.toList_ofList, h]
  simpa using congrArg String.toList htexts

/-- No encoding at the start of some bytes reaches into their first ill-formed sequence. -/
theorem length_encode_le_of_illFormed (h : IllFormed bad behind)
    (hpre : encode cs <+: encode before ++ (bad ++ behind)) :
    (encode cs).length ≤ (encode before).length := by
  induction before generalizing cs with
  | nil =>
    cases cs with
    | nil => exact Nat.le_refl 0
    | cons c cs =>
      rw [encode_cons] at hpre
      exact absurd ((List.prefix_append _ _).trans hpre) (h.no_char c)
  | cons b before ih =>
    cases cs with
    | nil => exact Nat.zero_le _
    | cons c cs =>
      obtain ⟨more, hmore⟩ := hpre
      rw [encode_cons, encode_cons, List.append_assoc, List.append_assoc] at hmore
      obtain ⟨rfl, hrest⟩ := encodeChar_append_inj hmore
      have := ih ⟨more, hrest⟩
      rw [encode_cons, encode_cons, List.length_append, List.length_append]
      omega

/-- Bytes with an ill-formed sequence behind an encoding are no encoding. -/
theorem encode_ne_of_illFormed (h : IllFormed bad behind) (cs : List Char) :
    encode cs ≠ encode before ++ (bad ++ behind) := by
  intro heq
  have hle := @length_encode_le_of_illFormed bad behind cs before h ⟨[], by rw [List.append_nil, heq]⟩
  have hpos := List.length_pos_iff.mpr h.begins.1
  rw [heq, List.length_append, List.length_append] at hle
  omega

/-! ### The reader -/

/-- What the reader sets apart, if the bytes are not those of a text: the first ill-formed sequence `bad`,
    behind the characters `before`, and the lossy reading of all bytes. -/
structure Malformed.Of (m : Malformed) (bytes behind : List UInt8) : Prop where
  cut : bytes = encode m.before ++ (m.bytes ++ behind)
  illFormed : IllFormed m.bytes behind
  lossy : Lossy bytes m.lossy
  replaced : ∃ rest, m.lossy = m.before ++ '\ufffd' :: rest

/-- **The reader.**  Bytes are those of the text that is read, or their first ill-formed sequence is set
    apart. -/
theorem read_cases (bytes : List UInt8) :
    (∃ text, read bytes = .ok text ∧ bytes = encode text.toList) ∨
      ∃ m behind, read bytes = .error m ∧ m.Of bytes behind := by
  have hcuts := cuts_pieces bytes
  cases hfind : malformedFrom? [] (pieces bytes) with
  | none =>
    refine .inl ⟨String.ofList ((pieces bytes).map Piece.lossy), ?_, ?_⟩
    · simp only [read, hfind]
    · rw [String.toList_ofList]
      exact hcuts.eq_encode hfind
  | some found =>
    obtain ⟨before, bad⟩ := found
    obtain ⟨cs, behind, rest, hbefore, hcut, hbad, hlossy⟩ := hcuts.of_malformedFrom? hfind
    obtain rfl : before = cs := hbefore
    refine .inr ⟨⟨before, bad, (pieces bytes).map Piece.lossy⟩, behind, ?_, hcut, hbad, hcuts.lossy,
      rest, hlossy⟩
    simp only [read, hfind]

/-- The bytes of a text are read as it. -/
theorem read_encode (text : String) : read (encode text.toList) = .ok text := by
  rcases read_cases (encode text.toList) with ⟨text', hread, hencode⟩ | ⟨m, behind, -, hm⟩
  · rw [hread, String.toList_inj.mp (encode_inj.mp hencode)]
  · exact absurd hm.cut (encode_ne_of_illFormed hm.illFormed _)

end ExprForest.Text.Utf8
