import RangeStore.Proofs.Schema.Catalog
import RangeStore.Proofs.Tuple.Canonical
set_option autoImplicit false

/-! # An entry of the catalog is read only whole

The value of an entry has no mark at its end: only the numbers of columns and indexes in it say
where it stops. So the readers are followed once more, now over bytes that no writer need have made.
None of them takes notice of what stands behind the bytes that it takes (`Steady`). Hence what is
read from a value is no longer read when bytes are put behind it, for they are left over; and then
it cannot be read either when the last bytes are cut off, for the bytes that are left would be such
a value. -/

namespace RangeStore

/-- The bytes of a text are those that it was read from. -/
theorem Text.utf8_of_text? {bytes : Bytes} {s : String} (h : Text.text? bytes = some s) :
    Text.utf8 s = bytes := by
  unfold Text.text? String.fromUTF8? at h
  split at h
  · obtain rfl := Option.some.inj h
    rfl
  · contradiction

namespace Catalog

open RangeStore.Tuple

/-! ## What an entry says -/

/-- What reading an entry does when it succeeds. -/
theorem readTable_eq_ok {cell : Cell} {t : Table} (h : readTable cell = .ok t) :
    ∃ body name behind d, splitKey cell.key = .ok (keySpace, body) ∧
      readName body = .ok (name, behind) ∧ readDraft name cell.value = .ok (d, []) ∧
      d.build = .ok t := by
  unfold readTable at h
  split at h
  · contradiction
  · next space body hsplit =>
    split at h
    · contradiction
    · next hspace =>
      obtain rfl := Decidable.not_not.mp hspace
      obtain ⟨⟨name, behind⟩, hname, h⟩ := exists_of_bind_eq_ok h
      obtain ⟨⟨d, rest⟩, hdraft, h⟩ := exists_of_bind_eq_ok h
      cases rest with
      | cons byte rest => contradiction
      | nil =>
        dsimp only at h
        split at h
        · contradiction
        · next built hbuild =>
          obtain rfl := Except.ok.inj h
          exact ⟨body, name, behind, d, hsplit, hname, hdraft, hbuild⟩

theorem eq_of_readName {bytes rest : Bytes} {name : String}
    (h : readName bytes = .ok (name, rest)) : bytes = encodeValue (.ofText name) ++ rest := by
  unfold readName at h
  split at h
  · contradiction
  · next content left hcontent =>
    split at h
    · contradiction
    · next s hs =>
      obtain ⟨rfl, rfl⟩ := Prod.mk.inj (Except.ok.inj h)
      rw [eq_of_decodeBytes hcontent, Value.ofText, Text.utf8_of_text? hs, encodeValue,
        List.append_assoc]
      rfl

/-! ## Bytes behind what is read -/

/-- What the first reading gives, the second gives with `more` behind the bytes that are left. -/
def Prolongs {α : Type} (more : Bytes) (r s : Except CatalogError (α × Bytes)) : Prop :=
  ∀ (a : α) (rest : Bytes), r = .ok (a, rest) → s = .ok (a, rest ++ more)

/-- Bytes behind those that are read change nothing but what is left. -/
def Steady {α : Type} (read : Bytes → Except CatalogError (α × Bytes)) : Prop :=
  ∀ bytes more : Bytes, Prolongs more (read bytes) (read (bytes ++ more))

namespace Prolongs

variable {α β : Type} {more : Bytes}

theorem ok (a : α) (rest : Bytes) : Prolongs more (.ok (a, rest)) (.ok (a, rest ++ more)) := by
  intro a' rest' h
  obtain ⟨rfl, rfl⟩ := Prod.mk.inj (Except.ok.inj h)
  rfl

theorem error {e : CatalogError} {s : Except CatalogError (α × Bytes)} :
    Prolongs more (.error e) s :=
  fun _ _ h => nomatch h

/-- One reading after the other. -/
theorem bind {r s : Except CatalogError (α × Bytes)}
    {f : α × Bytes → Except CatalogError (β × Bytes)} (h : Prolongs more r s)
    (hf : ∀ a rest, Prolongs more (f (a, rest)) (f (a, rest ++ more))) :
    Prolongs more (r >>= f) (s >>= f) := by
  cases r with
  | error e => exact error
  | ok p =>
    obtain rfl := h p.1 p.2 rfl
    exact hf p.1 p.2

end Prolongs

namespace Steady

variable {α : Type}

theorem readInt : Steady readInt := by
  intro bytes more n rest h
  unfold Catalog.readInt at h
  split at h
  · contradiction
  · next w left hw =>
    obtain ⟨rfl, rfl⟩ := Prod.mk.inj (Except.ok.inj h)
    have hagain : decodeInt (bytes ++ more) = .ok (w, left ++ more) := by
      rw [eq_of_decodeInt hw, List.append_assoc]
      exact decodeInt_big w _
    rw [Catalog.readInt, hagain]

theorem readName : Steady readName := by
  intro bytes more name rest h
  rw [eq_of_readName h, List.append_assoc]
  exact readName_ofText (rest ++ more) name

theorem readCount : Steady readCount := fun bytes more =>
  (readInt bytes more).bind fun n rest => by
    dsimp only
    split
    · exact .error
    · exact .ok n.toNat rest

theorem readColumn : Steady readColumn := fun bytes more =>
  (readName bytes more).bind fun name rest => (readInt rest more).bind fun tag rest => by
    dsimp only
    split
    · exact .error
    · next type _ => exact .ok _ rest

theorem readMany {read : Bytes → Except CatalogError (α × Bytes)} (hread : Steady read) (n : Nat) :
    Steady (readMany read n) := by
  intro bytes more
  induction n generalizing bytes with
  | zero => exact .ok [] bytes
  | succ n ih =>
    exact (hread bytes more).bind fun first rest => (ih rest).bind fun others rest =>
      .ok (first :: others) rest

theorem readIndex : Steady readIndex := fun bytes more =>
  (readName bytes more).bind fun _ rest => (readCount rest more).bind fun n rest =>
    (readMany readName n rest more).bind fun _ rest => .ok _ rest

theorem readDraft (name : String) : Steady (readDraft name) := by
  intro bytes more
  refine (readInt bytes more).bind fun space rest => ?_
  dsimp only
  split
  · exact .error
  · exact (readCount rest more).bind fun keyCount rest =>
      (readCount rest more).bind fun columnCount rest =>
      (readMany readColumn columnCount rest more).bind fun columns rest =>
      (readCount rest more).bind fun indexCount rest =>
      (readMany readIndex indexCount rest more).bind fun indexes rest => .ok _ rest

end Steady

/-! ## Entries -/

/-- What is read from an entry is not read any more with bytes behind its value. -/
theorem readTable_append {cell : Cell} {t : Table} (h : readTable cell = .ok t) {more : Bytes}
    (hmore : more ≠ []) : readTable ⟨cell.key, cell.value ++ more⟩ =
      .error (.decode (.trailingBytes more.length)) := by
  obtain ⟨body, name, behind, d, hsplit, hname, hdraft, -⟩ := readTable_eq_ok h
  obtain ⟨byte, others, rfl⟩ := List.exists_cons_of_ne_nil hmore
  have hagain := Steady.readDraft name cell.value (byte :: others) d [] hdraft
  simp only [readTable, hsplit, ne_eq, not_true_eq_false, if_false, hname, hagain, List.nil_append,
    bind, Except.bind]

/-- An entry is not read with the end of its value cut off: it would not be read with the end put
back. -/
theorem exists_readTable_eq_error {key kept cut : Bytes} {t : Table}
    (h : readTable ⟨key, kept ++ cut⟩ = .ok t) (hcut : cut ≠ []) :
    ∃ e, readTable ⟨key, kept⟩ = .error e := by
  cases hkept : readTable ⟨key, kept⟩ with
  | error e => exact ⟨e, rfl⟩
  | ok u =>
    have hwhole := readTable_append hkept hcut
    rw [h] at hwhole
    contradiction

/-! ## Tables -/

/-- The entry of a table is read back as the table: its indexes with all their columns, and with the
key spaces that are not written. With bytes behind its value the entry is not read, and these bytes
are counted; with the end of its value cut off, wherever that is, it is not read either. The
only condition is that the number of columns can be written, and no list in memory is longer. -/
theorem readTable_whole {d : Draft} {t : Table} (hbuild : d.build = .ok t)
    (hcolumns : t.columns.length < countLimit) :
    readTable (entry t) = .ok t ∧
    (∀ more : Bytes, more ≠ [] → readTable ⟨(entry t).key, (entry t).value ++ more⟩ =
      .error (.decode (.trailingBytes more.length))) ∧
    ∀ kept cut : Bytes, (entry t).value = kept ++ cut → cut ≠ [] →
      ∃ e, readTable ⟨(entry t).key, kept⟩ = .error e := by
  have hread := readTable_entry hbuild (countable_of_sound (Draft.sound_of_build hbuild) hcolumns)
  refine ⟨hread, fun more hmore => readTable_append hread hmore, ?_⟩
  intro kept cut hsplit hcut
  have hback : readTable ⟨(entry t).key, kept ++ cut⟩ = .ok t := by
    rw [← hsplit]
    exact hread
  exact exists_readTable_eq_error hback hcut

/-! ### A table of ferries -/

def ferriesDraft : Draft where
  name := "ferries"
  columns := [⟨"line", .int64⟩, ⟨"berth", .bytes⟩, ⟨"cars", .int64⟩]
  keyCount := 2
  indexes := [⟨"byCars", ["cars", "berth"]⟩, ⟨"byBerth", ["berth"]⟩]

/-- Both indexes are completed by the number of the line. -/
def ferries : Table :=
  ⟨"ferries", [⟨"line", .int64⟩, ⟨"berth", .bytes⟩, ⟨"cars", .int64⟩], 2, 100,
    [⟨"byCars", ["cars", "berth", "line"], 101⟩, ⟨"byBerth", ["berth", "line"], 102⟩]⟩

/-- The entry of the ferries, with a closing byte too many, and without its own closing byte. -/
theorem readTable_whole_ferries :
    ferriesDraft.build = .ok ferries ∧ ferries.columns.length < countLimit ∧
    readTable (entry ferries) = .ok ferries ∧
    readTable ⟨(entry ferries).key, (entry ferries).value ++ [0x00]⟩ =
      .error (.decode (.trailingBytes 1)) ∧
    ∃ e, readTable ⟨(entry ferries).key, (entry ferries).value.dropLast⟩ = .error e := by
  have hbuild : ferriesDraft.build = .ok ferries := rfl
  have hcolumns : ferries.columns.length < countLimit := by decide
  obtain ⟨hread, hmore, hcut⟩ := readTable_whole hbuild hcolumns
  have hsome : (entry ferries).value ≠ [] := by decide
  exact ⟨hbuild, hcolumns, hread, hmore [0x00] nofun,
    hcut _ [_] (List.dropLast_append_getLast hsome).symm nofun⟩

end Catalog

end RangeStore
