import RecordMap.Text.Encoding
import RecordMap.Text.Pattern

/-! Bytes as text, and the ends of its lines. Bytes that are the UTF-8 form of a text are read as that
text and all others byte by byte, with line feeds in the place of all other line breaks. -/

namespace RecordMap.Text

/-! ### Line breaks -/

def lineBreaks : List Text := [['\n'], ['\r', '\n'], ['\r']]

def withBreaks (t lineBreak : Text) : Text := t.flatMap fun c => if c = '\n' then lineBreak else [c]

/-- Whatever is replaced, a line feed comes in its place. -/
def lineFeed : Unit → Text → Text := fun _ _ => ['\n']

/-- Every carriage return with a line feed behind it is replaced, and then every one that is left. -/
def withLineFeeds (t : Text) : Text :=
  (Pattern.verbatim "\r").replaceAll lineFeed ((Pattern.verbatim "\r\n").replaceAll lineFeed t)

theorem replaceFrom_verbatim {s : String} (hs : s.toList ≠ []) (f : Unit → Text → Text)
    (before : Option Char) (rest : Text) :
    (Pattern.verbatim s).replaceFrom f 0 before (s.toList ++ rest) =
      f () s.toList ++ (Pattern.verbatim s).replaceFrom f 0 (s.toList.getLast?.or before) rest :=
  Pattern.replaceFrom_of_match f hs
    (Option.map_eq_some_iff.mpr ⟨rest, afterAll?_eq_some_iff.mpr rfl, rfl⟩)

theorem replaceFrom_verbatim_of_not {s : String} {c : Char} {cs : Text}
    (h : ∀ rest, c :: cs ≠ s.toList ++ rest) (f : Unit → Text → Text) (before : Option Char) :
    (Pattern.verbatim s).replaceFrom f 0 before (c :: cs) =
      c :: (Pattern.verbatim s).replaceFrom f 0 (some c) cs := by
  refine Pattern.replaceFrom_of_none f (Option.map_eq_none_iff.mpr ?_)
  exact Option.eq_none_iff_forall_ne_some.mpr fun rest hrest => h rest (afterAll?_eq_some_iff.mp hrest)

/-- One pass from left to right does the same as the two replacements. -/
theorem withLineFeeds_eq_unifyNewlines (t : Text) : t.withLineFeeds = unifyNewlines t := by
  have hfrom : ∀ before before', (Pattern.verbatim "\r").replaceFrom lineFeed 0 before'
      ((Pattern.verbatim "\r\n").replaceFrom lineFeed 0 before t) = unifyNewlines t := by
    fun_induction unifyNewlines t with
    | case1 cs ih =>
      intro before before'
      have hpair : (Pattern.verbatim "\r\n").replaceFrom lineFeed 0 before ('\r' :: '\n' :: cs) =
          '\n' :: (Pattern.verbatim "\r\n").replaceFrom lineFeed 0 (some '\n') cs :=
        replaceFrom_verbatim (by decide) lineFeed before cs
      rw [hpair, replaceFrom_verbatim_of_not, ih]
      exact fun _ heq => absurd (List.cons.inj heq).1 (by decide)
    | case2 cs hcs ih =>
      intro before before'
      have hlone : ∀ rest, (Pattern.verbatim "\r").replaceFrom lineFeed 0 before' ('\r' :: rest) =
          '\n' :: (Pattern.verbatim "\r").replaceFrom lineFeed 0 (some '\r') rest :=
        replaceFrom_verbatim (by decide) lineFeed before'
      rw [replaceFrom_verbatim_of_not, hlone, ih]
      exact fun rest heq => hcs rest (List.cons.inj heq).2
    | case3 c cs _ hc ih =>
      intro before before'
      rw [replaceFrom_verbatim_of_not, replaceFrom_verbatim_of_not, ih]
      · exact fun _ heq => hc (List.cons.inj heq).1
      · exact fun _ heq => hc (List.cons.inj heq).1
    | case4 => exact fun _ _ => rfl
  exact hfrom none none

theorem unifyNewlines_cons {c : Char} (h : c ≠ '\r') (cs : Text) :
    unifyNewlines (c :: cs) = c :: unifyNewlines cs := by
  rw [unifyNewlines]
  · exact fun _ heq _ => h heq
  · exact h

theorem unifyNewlines_return {cs : Text} (h : '\n' ∉ cs) :
    unifyNewlines ('\r' :: cs) = '\n' :: unifyNewlines cs := by
  rw [unifyNewlines]
  rintro rest rfl
  exact h List.mem_cons_self

theorem unifyNewlines_withBreaks {t lineBreak : Text} (h : '\r' ∉ t) (hbreak : lineBreak ∈ lineBreaks) :
    unifyNewlines (t.withBreaks lineBreak) = t := by
  induction t with
  | nil => rfl
  | cons c cs ih =>
    rw [List.mem_cons, not_or] at h
    obtain ⟨hc, hcs⟩ := h
    rw [withBreaks, List.flatMap_cons, ← withBreaks]
    by_cases hfeed : c = '\n'
    · rw [if_pos hfeed, hfeed]
      simp only [lineBreaks, List.mem_cons, List.not_mem_nil, or_false] at hbreak
      rcases hbreak with rfl | rfl | rfl
      · rw [List.singleton_append, unifyNewlines_cons (by decide), ih hcs]
      · rw [List.cons_append, List.cons_append, List.nil_append, unifyNewlines, ih hcs]
      · have hnone : '\n' ∉ withBreaks cs ['\r'] := by
          intro hmem
          obtain ⟨d, _, hd⟩ := List.mem_flatMap.mp hmem
          split at hd
          · exact absurd hd (by decide)
          · next hd' => exact hd' (List.mem_singleton.mp hd).symm
        rw [List.singleton_append, unifyNewlines_return hnone, ih hcs]
    · rw [if_neg hfeed, List.singleton_append, unifyNewlines_cons (Ne.symm hc), ih hcs]

/-! ### Bytes -/

theorem decodeUtf8?_eq_some_iff {bytes : ByteArray} {t : Text} :
    decodeUtf8? bytes = some t ↔ bytes = t.utf8Encode := by
  refine ⟨fun h => ?_, fun h => h ▸ decodeUtf8?_utf8Encode t⟩
  have hsome : bytes.utf8Decode?.isSome = true := by
    rw [← Option.isSome_map (f := Array.toList), ← decodeUtf8?, h]
    rfl
  obtain ⟨s, rfl⟩ := ByteArray.isSome_utf8Decode?_iff.mp hsome
  rw [decodeUtf8?_utf8Encode, Option.some.injEq] at h
  rw [h]

theorem map_toNat_decodeLatin1 (bytes : ByteArray) :
    (decodeLatin1 bytes).map Char.toNat = bytes.toList.map UInt8.toNat := by
  rw [decodeLatin1, List.map_map]
  refine List.map_congr_left fun b _ => ?_
  have hlt := b.toNat_lt
  rw [Function.comp_apply, Char.ofNat, dif_pos (Or.inl (by omega))]
  rfl

theorem decode_utf8Encode (t : Text) : decode .utf8 t.utf8Encode = t.withLineFeeds := by
  rw [withLineFeeds_eq_unifyNewlines, decode, Encoding.decode?, decodeUtf8?_utf8Encode, Option.getD_some]

theorem decode_of_not_utf8 {bytes : ByteArray} (h : ∀ t : Text, bytes ≠ t.utf8Encode) :
    decode .utf8 bytes = (decodeLatin1 bytes).withLineFeeds := by
  have hnone : decodeUtf8? bytes = none :=
    Option.eq_none_iff_forall_ne_some.mpr fun t ht => h t (decodeUtf8?_eq_some_iff.mp ht)
  rw [withLineFeeds_eq_unifyNewlines, decode, Encoding.decode?, hnone, Option.getD_none]

end RecordMap.Text
