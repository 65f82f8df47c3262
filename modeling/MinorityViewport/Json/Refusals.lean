import MinorityViewport.Json.Printed

/-!
# Texts that are not read

`Refused room text` says that the reader takes the text for no value, whatever
follows, and `Fails room text` that it comes to a token that no object goes on
with.  A number that fills the buffer is refused, and so are arrays and objects
that have a part which is not read: `refused_printArray` and
`refused_printObject`.
-/

namespace MinorityViewport.Json.Reader

open Value
open StrictJson (printArray printMember printObject)

/-! ## Open arrays -/

/-- As many open arrays as there is room for overflow the stack. -/
theorem readValueIn_brackets {n k : Nat} (h : n ≤ k) {fuel : Nat} (hfuel : 2 * n + 1 ≤ fuel) :
    readValueIn (some n) fuel (List.replicate k '[') = .error (.fault .stackOverflow) := by
  induction n generalizing k fuel with
  | zero =>
    obtain ⟨fuel, rfl⟩ : ∃ f, fuel = f + 1 := ⟨fuel - 1, by omega⟩
    rw [readValueIn, if_pos rfl]
  | succ n ih =>
    obtain ⟨fuel, rfl⟩ : ∃ f, fuel = f + 2 := ⟨fuel - 2, by omega⟩
    obtain ⟨k, rfl⟩ : ∃ m, k = m + 1 := ⟨k - 1, by omega⟩
    have htoken : skipCommentTokens ('[' :: List.replicate k '[') =
        (⟨.arrayBegin, ['[']⟩, List.replicate k '[') :=
      skipCommentTokens_of_type (readToken_char '[' (by decide) _ rfl) (by simp)
    have hhead : (skipSpaces (List.replicate k '[')).head? ≠ some ']' := by
      intro hhead
      have hmem := (List.dropWhile_suffix _).subset (List.mem_of_head? hhead)
      exact absurd (List.eq_of_mem_replicate hmem) (by decide)
    rw [List.replicate_succ, readValueIn, if_neg (by simp), htoken]
    simp only
    rw [if_neg hhead, readArrayIn, Option.map_some, Nat.add_sub_cancel,
      ih (Nat.le_of_succ_le_succ h) (by omega)]

theorem parseIn_brackets {n k : Nat} (h : n ≤ k) :
    parseIn (some n) (List.replicate k '[') = .error .stackOverflow := by
  rw [parseIn, readValueIn_brackets h (by rw [List.length_replicate]; omega)]

/-! ## Numbers -/

/-- A number that fills the buffer. -/
theorem readValueIn_overruns {n : Nat} {text rest : Str} (h : IsDecimal text)
    (hrest : Delimited rest) (hoverruns : Overruns text) (fuel : Nat) :
    readValueIn (some (n + 1)) (fuel + 1) (text ++ rest) = .error (.fault .bufferOverrun) := by
  rw [readValueIn, if_neg (by simp),
    skipCommentTokens_of_type (readToken_decimal h hrest) (by simp)]
  simp only [decodeNumberIn]
  rw [if_pos ⟨rfl, hoverruns⟩]
  rfl

/-- Behind the text, or in place of a value, comes a token that no object
goes on with. -/
def Fails (room : Option Nat) (text : Str) : Prop :=
  ∀ (fuel : Nat) (rest : Str), Delimited rest → 2 * text.length + 1 ≤ fuel →
    ∀ v rest', readValueIn room fuel (text ++ rest) = .ok (v, rest') →
      (readToken rest').1.type = .error

/-- The text is read as no value. -/
def Refused (room : Option Nat) (text : Str) : Prop :=
  ∀ (fuel : Nat) (rest : Str), Delimited rest → 2 * text.length + 1 ≤ fuel →
    ∀ p, readValueIn room fuel (text ++ rest) ≠ .ok p

theorem Refused.fails {room : Option Nat} {text : Str} (h : Refused room text) :
    Fails room text := fun fuel rest hrest hfuel _ _ hread =>
  absurd hread (h fuel rest hrest hfuel _)

theorem Refused.parseIn_ne {room : Option Nat} {text : Str} (h : Refused room text) (v : Value) :
    parseIn room text ≠ .ok (some v) := by
  have hread := h (2 * text.length + 1) [] delimited_nil le_rfl
  rw [List.append_nil] at hread
  intro hparse
  rw [parseIn] at hparse
  split at hparse
  · next hok => exact hread _ hok
  · cases hparse
  · cases hparse

/-- A number is read, or fills the buffer. -/
theorem readsIn_or_fails_decimal {n : Nat} {text : Str} (h : IsDecimal text) :
    (∃ v, ReadsIn (some (n + 1)) text v) ∨ Fails (some (n + 1)) text := by
  by_cases hoverruns : Overruns text
  · refine Or.inr (Refused.fails fun fuel rest hrest hfuel p => ?_)
    obtain ⟨fuel, rfl⟩ : ∃ f, fuel = f + 1 := ⟨fuel - 1, by omega⟩
    rw [readValueIn_overruns h hrest hoverruns]
    exact fun h => by cases h
  · obtain ⟨v, hv⟩ := decodeNumber_of_decimal h
    exact Or.inl ⟨v, readsIn_decimal (by simp) h (fun _ => hoverruns) hv⟩

/-- The first token of the text is an error, whatever follows. -/
def StartsWrong (text : Str) : Prop := ∀ rest, (readToken (text ++ rest)).1.type = .error

theorem refused_of_startsWrong {text : Str} (h : StartsWrong text) (room : Option Nat) :
    Refused room text := by
  intro fuel rest _ hfuel p
  obtain ⟨fuel, rfl⟩ : ∃ f, fuel = f + 1 := ⟨fuel - 1, by omega⟩
  have htoken := skipCommentTokens_of_type (Prod.mk.eta (p := readToken (text ++ rest))).symm
    (by simp [h rest])
  rw [readValueIn, htoken]
  split
  · exact fun h => by cases h
  · simp [h rest]

/-- A sign in front of it is read as a number of its own. -/
theorem fails_minus {text : Str} (hhead : Delimited text) (hne : text ≠ [])
    (h : StartsWrong text) (room : Option Nat) : Fails room ('-' :: text) := by
  intro fuel rest _ hfuel v rest' hread
  obtain ⟨fuel, rfl⟩ : ∃ f, fuel = f + 1 := ⟨fuel - 1, by omega⟩
  have hdelimited : Delimited (text ++ rest) := by
    obtain ⟨c, cs, rfl⟩ := List.exists_cons_of_ne_nil hne
    exact hhead
  have htoken : readToken ('-' :: (text ++ rest)) = (⟨.number, ['-']⟩, text ++ rest) :=
    readToken_number (Or.inr rfl) (List.forall_mem_nil _) hdelimited
  rw [List.cons_append, readValueIn, skipCommentTokens_of_type htoken (by simp)] at hread
  split at hread
  · cases hread
  · dsimp only at hread
    cases hdecode : decodeNumberIn room ['-'] with
    | error stop =>
      rw [hdecode] at hread
      cases hread
    | ok v' =>
      rw [hdecode] at hread
      cases hread
      exact h rest

/-! ## Objects -/

/-- A member that fails. -/
theorem readObjectIn_fails {room : Option Nat} {fuel : Nat} {name : Str}
    {members : List (Str × Value)} {key text : Str} (hkey : PlainKey key) (hfails : Fails room text)
    {rest : Str} (hrest : Delimited rest) (hfuel : 2 * text.length + 1 ≤ fuel) (p : Value × Str) :
    readObjectIn room (fuel + 1) name members (printMember key text ++ rest) ≠ .ok p := by
  rw [readObjectIn_key hkey]
  cases hread : readValueIn room fuel (text ++ rest) with
  | error stop => exact fun h => by cases h
  | ok q =>
    have htype := hfails fuel rest hrest hfuel q.1 q.2 hread
    simp [Except.bind, htype]

theorem readObjectIn_refused {room : Option Nat} (ms : List (Str × Str))
    (hms : ∀ m ∈ ms, PlainKey m.1 ∧ ((∃ v, ReadsIn room m.2 v) ∨ Fails room m.2))
    (hfail : ∃ m ∈ ms, Fails room m.2) (name : Str) (members : List (Str × Value)) (fuel : Nat)
    (rest : Str)
    (hfuel : 2 * (List.intercalate [','] (ms.map fun m => printMember m.1 m.2)).length + 2 ≤
      fuel) (p : Value × Str) :
    readObjectIn room fuel name members
        (List.intercalate [','] (ms.map fun m => printMember m.1 m.2) ++ '}' :: rest) ≠ .ok p := by
  induction ms generalizing name members fuel with
  | nil =>
    obtain ⟨m, hm, _⟩ := hfail
    cases hm
  | cons m ms ih =>
    obtain ⟨⟨hkey, hread⟩, hms⟩ := List.forall_mem_cons.mp hms
    obtain ⟨fuel, rfl⟩ : ∃ f, fuel = f + 1 := ⟨fuel - 1, by omega⟩
    have hlen : (printMember m.1 m.2).length = m.1.length + m.2.length + 3 := by
      simp only [printMember, List.length_append, List.length_cons]
      omega
    cases ms with
    | nil =>
      obtain ⟨m', hm', hfails⟩ := hfail
      obtain rfl := List.mem_singleton.mp hm'
      rw [List.map_singleton, List.intercalate_singleton] at hfuel ⊢
      exact readObjectIn_fails hkey hfails (delimited_cons (by decide) _) (by omega) p
    | cons m' ms =>
      rw [List.map_cons, List.map_cons, List.intercalate_cons_cons] at hfuel ⊢
      simp only [List.length_append, List.length_singleton] at hfuel
      simp only [List.append_assoc, List.cons_append, List.nil_append]
      have hdelimited := fun cs : Str => delimited_cons (by decide : ¬ isNumberChar ',') cs
      by_cases hhead : Fails room m.2
      · exact readObjectIn_fails hkey hhead (hdelimited _) (by omega) p
      obtain ⟨v, hread⟩ := hread.resolve_right hhead
      have htail : ∃ m ∈ m' :: ms, Fails room m.2 :=
        (List.or_exists_of_exists_mem_cons hfail).resolve_left hhead
      have hcomma := fun cs : Str => readToken_char ',' (by decide) cs rfl
      have hrest := ih hms htail m.1 (setMember m.1 v members) fuel (by
        rw [List.map_cons]
        omega)
      rw [readObjectIn_member hkey hread (hdelimited _) (by omega), hcomma,
        skipCommentTokens_of_type (hcomma _) (by simp)]
      simpa using hrest

/-- An object with a member that fails is no value. -/
theorem refused_printObject {room : Option Nat} {ms : List (Str × Str)}
    (hms : ∀ m ∈ ms, PlainKey m.1 ∧ ((∃ v, ReadsIn (inner room) m.2 v) ∨ Fails (inner room) m.2))
    (hfail : ∃ m ∈ ms, Fails (inner room) m.2) : Refused room (printObject ms) := by
  intro fuel rest _ hfuel p
  obtain ⟨fuel, rfl⟩ : ∃ f, fuel = f + 1 := ⟨fuel - 1, by omega⟩
  have hopen := fun cs : Str => skipCommentTokens_of_type
    (readToken_char '{' (by decide) cs rfl) (by simp)
  have hlen : (printObject ms).length =
      (List.intercalate [','] (ms.map fun m => printMember m.1 m.2)).length + 2 := by
    simp [printObject]
  rw [printObject, List.append_assoc, List.singleton_append, List.cons_append, readValueIn, hopen]
  split
  · exact fun h => by cases h
  · exact readObjectIn_refused ms hms hfail [] [] fuel rest (by omega) p

/-- The values of texts that are all read. -/
theorem exists_values {room : Option Nat} {texts : List Str}
    (h : ∀ text ∈ texts, ∃ v, ReadsIn room text v) :
    ∃ value : Str → Value, ∀ text ∈ texts, ReadsIn room text (value text) := by
  have hvalue : ∀ text, ∃ v, text ∈ texts → ReadsIn room text v := by
    intro text
    by_cases hmem : text ∈ texts
    · obtain ⟨v, hv⟩ := h text hmem
      exact ⟨v, fun _ => hv⟩
    · exact ⟨.null, fun hin => absurd hin hmem⟩
  choose value hvalue using hvalue
  exact ⟨value, hvalue⟩

/-- An object whose members are read or fail is read, or is no value. -/
theorem readsIn_or_refused_printObject {room : Option Nat} (hroom : room ≠ some 0)
    {ms : List (Str × Str)} (hne : ms ≠ []) (hnodup : (ms.map Prod.fst).Nodup)
    (hms : ∀ m ∈ ms, PlainKey m.1 ∧ ((∃ v, ReadsIn (inner room) m.2 v) ∨ Fails (inner room) m.2)) :
    (∃ v, ReadsIn room (printObject ms) v) ∨ Refused room (printObject ms) := by
  by_cases hfail : ∃ m ∈ ms, Fails (inner room) m.2
  · exact Or.inr (refused_printObject hms hfail)
  · obtain ⟨value, hvalue⟩ : ∃ value : Str → Value,
        ∀ text ∈ ms.map Prod.snd, ReadsIn (inner room) text (value text) := by
      refine exists_values fun text htext => ?_
      obtain ⟨m, hm, rfl⟩ := List.mem_map.mp htext
      exact (hms m hm).2.resolve_right fun hfails => hfail ⟨m, hm, hfails⟩
    have hobject := readsIn_printObject hroom (ms.map fun m => (m.1, m.2, value m.2))
      (by simpa using hne) (by simpa [Function.comp_def] using hnodup) (by
        intro m' hm'
        obtain ⟨m, hm, rfl⟩ := List.mem_map.mp hm'
        exact ⟨(hms m hm).1, hvalue m.2 (List.mem_map_of_mem hm)⟩)
    simp only [List.map_map, Function.comp_def, Prod.mk.eta, List.map_id'] at hobject
    exact Or.inl ⟨_, hobject⟩

/-! ## Arrays -/

/-- An element that is refused. -/
theorem readArrayIn_of_refused {room : Option Nat} {fuel : Nat} {acc : List Value} {e : Str}
    (hrefused : Refused room e) {rest : Str} (hrest : Delimited rest)
    (hfuel : 2 * e.length + 1 ≤ fuel) (p : Value × Str) :
    readArrayIn room (fuel + 1) acc (e ++ rest) ≠ .ok p := by
  rw [readArrayIn]
  cases hvalue : readValueIn room fuel (e ++ rest) with
  | error stop => exact fun h => by cases h
  | ok q => exact absurd hvalue (hrefused fuel rest hrest hfuel q)

theorem readArrayIn_refused {room : Option Nat} (es : List Str)
    (hes : ∀ e ∈ es, (∃ v, ReadsIn room e v) ∨ Refused room e) (hfail : ∃ e ∈ es, Refused room e)
    (acc : List Value) (fuel : Nat) (rest : Str)
    (hfuel : 2 * (List.intercalate [','] es).length + 2 ≤ fuel) (p : Value × Str) :
    readArrayIn room fuel acc (List.intercalate [','] es ++ ']' :: rest) ≠ .ok p := by
  induction es generalizing acc fuel with
  | nil =>
    obtain ⟨e, he, _⟩ := hfail
    cases he
  | cons e es ih =>
    obtain ⟨hread, hes⟩ := List.forall_mem_cons.mp hes
    obtain ⟨fuel, rfl⟩ : ∃ f, fuel = f + 1 := ⟨fuel - 1, by omega⟩
    cases es with
    | nil =>
      obtain ⟨e', he', hfails⟩ := hfail
      obtain rfl := List.mem_singleton.mp he'
      rw [List.intercalate_singleton] at hfuel ⊢
      exact readArrayIn_of_refused hfails (delimited_cons (by decide) _) (by omega) p
    | cons e' es =>
      rw [List.intercalate_cons_cons] at hfuel ⊢
      simp only [List.length_append, List.length_singleton] at hfuel
      simp only [List.append_assoc, List.cons_append, List.nil_append]
      have hdelimited := fun cs : Str => delimited_cons (by decide : ¬ isNumberChar ',') cs
      by_cases hhead : Refused room e
      · exact readArrayIn_of_refused hhead (hdelimited _) (by omega) p
      obtain ⟨v, hread⟩ := hread.resolve_right hhead
      have htail : ∃ e ∈ e' :: es, Refused room e :=
        (List.or_exists_of_exists_mem_cons hfail).resolve_left hhead
      have hcomma := fun cs : Str => skipCommentTokens_of_type
        (readToken_char ',' (by decide) cs rfl) (by simp)
      have hrest := ih hes htail (acc ++ [v]) fuel (by omega)
      rw [readArrayIn, hread fuel _ (hdelimited _) (by omega)]
      simp only [hcomma]
      rw [if_neg (by simp)]
      simpa using hrest

/-- An array with an object that is no value is none either. -/
theorem refused_printArray {room : Option Nat} {es : List Str}
    (hobject : ∀ e ∈ es, e.head? = some '{')
    (hes : ∀ e ∈ es, (∃ v, ReadsIn (inner room) e v) ∨ Refused (inner room) e)
    (hfail : ∃ e ∈ es, Refused (inner room) e) : Refused room (printArray es) := by
  intro fuel rest _ hfuel p
  obtain ⟨fuel, rfl⟩ : ∃ f, fuel = f + 1 := ⟨fuel - 1, by omega⟩
  have hopen := fun cs : Str => skipCommentTokens_of_type
    (readToken_char '[' (by decide) cs rfl) (by simp)
  have hlen : (printArray es).length = (List.intercalate [','] es).length + 2 := by
    simp [printArray]
  have hhead : (skipSpaces (List.intercalate [','] es ++ ']' :: rest)).head? ≠ some ']' := by
    obtain ⟨e, es, rfl⟩ : ∃ e es', es = e :: es' := by
      obtain ⟨e, he, _⟩ := hfail
      exact List.exists_cons_of_ne_nil (List.ne_nil_of_mem he)
    obtain ⟨tail, htail⟩ := List.head?_eq_some_iff.mp (hobject e List.mem_cons_self)
    obtain ⟨cs, hcs⟩ : ∃ cs, List.intercalate [','] (e :: es) ++ ']' :: rest = '{' :: cs := by
      cases es with
      | nil => exact ⟨_, by rw [List.intercalate_singleton, htail]; rfl⟩
      | cons e' es => exact ⟨_, by rw [List.intercalate_cons_cons, htail]; rfl⟩
    rw [hcs, skipSpaces_of_head (by decide)]
    exact fun h => by cases h
  rw [printArray, List.append_assoc, List.singleton_append, List.cons_append, readValueIn, hopen]
  split
  · exact fun h => by cases h
  simp only
  rw [if_neg hhead]
  exact readArrayIn_refused es hes hfail [] fuel rest (by omega) p

/-- An array of objects that are read or refused. -/
theorem readsIn_or_refused_printArray {room : Option Nat} (hroom : room ≠ some 0) {es : List Str}
    (hobject : ∀ e ∈ es, e.head? = some '{')
    (hes : ∀ e ∈ es, (∃ v, ReadsIn (inner room) e v) ∨ Refused (inner room) e) :
    (∃ v, ReadsIn room (printArray es) v) ∨ Refused room (printArray es) := by
  by_cases hfail : ∃ e ∈ es, Refused (inner room) e
  · exact Or.inr (refused_printArray hobject hes hfail)
  · obtain ⟨value, hvalue⟩ := exists_values fun e he =>
      (hes e he).resolve_right fun hrefused => hfail ⟨e, he, hrefused⟩
    have helements : ∀ p ∈ es.map fun e => (e, value e), ReadsIn (inner room) p.1 p.2 := by
      intro p hp
      obtain ⟨e, he, rfl⟩ := List.mem_map.mp hp
      exact hvalue e he
    have harray := readsIn_printArray hroom helements
    simp only [List.map_map, Function.comp_def, List.map_id'] at harray
    exact Or.inl ⟨_, harray⟩

end MinorityViewport.Json.Reader
