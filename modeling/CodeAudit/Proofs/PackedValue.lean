import CodeAudit.Pack
import CodeAudit.Proofs.JsonText

/-! Values packed and unpacked again. -/

namespace CodeAudit.Pack

open List

theorem Base64.value?_digit (n : Nat) : value? (digit n) = some (n % 64) ∧ digit n ≠ '=' ∧ (digit n).toNat < 128 := by
  have hall : ∀ i : Fin 64, value? (digit i) = some i.val ∧ digit i ≠ '=' ∧ (digit i).toNat < 128 := by decide +kernel
  simpa [digit] using hall ⟨n % 64, Nat.mod_lt n (by decide)⟩

theorem Base64.read_digit (n : Nat) (r : Reader) (rest : Chars) :
    read r (digit n :: rest) = read (r.take (n % 64)) rest := by
  obtain ⟨hvalue, hpad, -⟩ := value?_digit n
  rw [read, if_neg hpad, hvalue]

theorem Base64.read_encode (bytes done : Octets) :
    read { bytes := done } (encode bytes) = .ok (done.reverse ++ bytes) := by
  have hoctet {n : Nat} {a : UInt8} (h : n = a.toNat) : UInt8.ofNat n = a := by rw [h, UInt8.ofNat_toNat]
  fun_induction encode bytes generalizing done with
  | case1 => simp [read, Reader.finish]
  | case2 a =>
    have ha := a.toNat_lt
    simp only [read_digit, Reader.take]
    rw [hoctet (a := a) (by omega)]
    simp [read]
  | case3 a b =>
    have ha := a.toNat_lt
    have hb := b.toNat_lt
    simp only [read_digit, Reader.take]
    rw [hoctet (a := b) (by omega), hoctet (a := a) (by omega)]
    simp [read]
  | case4 a b c rest ih =>
    have ha := a.toNat_lt
    have hb := b.toNat_lt
    have hc := c.toNat_lt
    simp only [read_digit, Reader.take]
    rw [hoctet (a := c) (by omega), hoctet (a := b) (by omega), hoctet (a := a) (by omega), ih]
    simp

theorem decodeText_encode (bytes : Octets) :
    decodeText (.text (String.ofList (Base64.encode bytes))) = .ok bytes := by
  have hbasic : ((Base64.encode bytes).all fun c => c.toNat < 128) := by
    fun_induction Base64.encode bytes <;> simp_all [Base64.value?_digit]
  rw [decodeText, String.toList_ofList, if_pos hbasic, Base64.decode, Base64.read_encode]
  rfl

theorem textOf_octets (v : Value) : textOf (octets v) = .ok (Json.write {} v) := by
  have hread (s : String) : String.fromUTF8? s.toUTF8 = some s := by
    simp only [String.fromUTF8?, String.toUTF8_eq_toByteArray, dif_pos s.isValidUTF8]
    rfl
  simp only [textOf, octets, Array.toArray_toList, hread]

variable {v : Value} {m : Method} {name : String} {known : List Method}

theorem methodOf_known (hnames : (known.map Method.name).Nodup) (h : m ∈ known) :
    methodOf (.text m.name) known = .ok m := by
  have hfind : known.find? (fun other => other.name = m.name && (Value.text m.name).kind = "str") = some m := by
    induction known with
    | nil => cases h
    | cons first rest ih =>
      obtain ⟨hfirst, hrest⟩ := nodup_cons.mp hnames
      rcases mem_cons.mp h with rfl | hm
      · simp [Value.kind]
      · have hne : first.name ≠ m.name := fun heq => hfirst (heq ▸ mem_map_of_mem hm)
        simpa [hne] using ih hrest hm
  simp only [methodOf, Value.keyText, ok_bind, hfind]
  rfl

theorem methodOf_unknown (h : name ∉ known.map Method.name) :
    methodOf (.text name) known = .error (.badValue ("Algorithme inconnu: " ++ name)) := by
  have hnone : known.find? (fun m => m.name = name && (Value.text name).kind = "str") = none :=
    find?_eq_none.mpr fun m hm => by simpa using fun heq => absurd (mem_map.mpr ⟨m, hm, heq⟩) h
  simp only [methodOf, Value.keyText, ok_bind, hnone]
  rfl

theorem decompress_parcel (hv : Json.isDocument Json.maxDepth v)
    (hm : methodOf (.text m.name) known = .ok m) (h : m.unpack (m.pack (octets v)) = .ok (octets v)) :
    decompress (m.parcel (octets v)).toValue known = .ok v := by
  have hmethod (p : Parcel) : p.toValue.member "algorithm" = .ok (.text p.method) := rfl
  have hdata (p : Parcel) : p.toValue.member "data" = .ok (.text p.data) := rfl
  simp only [decompress, hmethod, hdata, ok_bind, Method.parcel, hm, decodeText_encode, h, textOf_octets]
  exact Json.parse_write _ rfl hv

theorem octets_ne_nil (hv : Json.isDocument Json.maxDepth v) : octets v ≠ [] := by
  intro hnil
  have htext := textOf_octets v
  have hparse := Json.parse_write {} rfl hv
  rw [hnil] at htext
  cases (congrArg Json.parse (Except.ok.inj htext)).trans hparse

/-- Whatever methods there are, a parcel tells its own, so that it is unpacked wherever it is. A
method that is named but not known stops both ways; an empty name names none. -/
theorem unpacked_parcels (known : List Method) (hnames : (known.map Method.name).Nodup)
    (hempty : "" ∉ known.map Method.name) (v : Value) (hv : Json.isDocument Json.maxDepth v)
    (usual : Method) (hmethods : ∀ m ∈ known, m.unpack (m.pack (octets v)) = .ok (octets v)) :
    (∀ m ∈ known, ∀ given : Value, given = .text m.name ∨ m = usual ∧ (given = .null ∨ given = "") →
      ∃ p, compress usual v given known = .ok p ∧ p.method = m.name ∧ 0 < p.originalSize ∧
        decompress p.toValue known = .ok v) ∧
    ∀ name ∉ known.map Method.name, (∀ parcel, parcel.member "algorithm" = .ok (.text name) →
      decompress parcel known = .error (.badValue ("Algorithme inconnu: " ++ name))) ∧
      (name ≠ "" → compress usual v name known =
        .error (.badValue ("Algorithme inconnu: " ++ name))) := by
  refine ⟨fun m hm given hgiven => ?_, fun name hname => ⟨fun parcel hparcel => ?_, fun hne => ?_⟩⟩
  · have hknown := methodOf_known hnames hm
    have hchosen : compress usual v given known = .ok (m.parcel (octets v)) := by
      rcases hgiven with rfl | ⟨rfl, rfl | rfl⟩
      · have hne : m.name ≠ "" := fun heq => hempty (heq ▸ mem_map_of_mem hm)
        simp [compress, Value.truthy, hne, hknown]
      · rfl
      · rfl
    exact ⟨_, hchosen, rfl, length_pos_iff.mpr (octets_ne_nil hv), decompress_parcel hv hknown (hmethods m hm)⟩
  · simp [decompress, hparcel, methodOf_unknown hname]
  · simp [compress, Value.truthy, hne, methodOf_unknown hname]

theorem unpacked_parcels_nested :
    ∃ p, compress zlib (.list [.text "é\n", .object [("a", .float 0.5)]]) "lz4" = .ok p ∧
      decompress p.toValue = .ok (.list [.text "é\n", .object [("a", .float 0.5)]]) := by
  have hmethods := unpacked_parcels methods (by decide) (by decide)
    (.list [.text "é\n", .object [("a", .float 0.5)]]) (by decide) zlib (by
      simp only [methods, forall_mem_cons, not_mem_nil, false_imp_iff, implies_true, and_true]
      decide +kernel)
  obtain ⟨p, hp, -, -, hback⟩ := hmethods.1 lz4 (mem_cons_of_mem _ mem_cons_self) "lz4" (.inl rfl)
  exact ⟨p, hp, hback⟩

/-- An empty name packs by the usual method, though no method has it. -/
theorem unnamed_method_packs : ∃ p, "" ∉ methods.map Method.name ∧
    compress zlib (.int 1) "" = .ok p ∧ p.method = "zlib" :=
  ⟨_, by decide, rfl, rfl⟩

end CodeAudit.Pack
