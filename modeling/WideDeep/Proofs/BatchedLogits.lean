import Mathlib.Tactic
import WideDeep.Model.Scoring
import WideDeep.Proofs.Results

/-!
# Logits of a batch

A batch is computed column by column and layer by layer, for all its records at once. Row by row this
gives the logit of each record: no number of one record enters the logit of another.
-/

namespace WideDeep.Proofs

variable {α : Type}

section Stretching

variable {β γ : Type} {m n r : Nat}

lemma broadcast_self (n : Nat) : broadcast n n = .ok n := by
  unfold broadcast
  rw [if_pos rfl]

/-- Columns that are added are of one length, or one of them has a single number. -/
lemma broadcast_cases (h : broadcast m n = .ok r) :
    (m = r ∧ n = r) ∨ (m = 1 ∧ n = r) ∨ (m = r ∧ n = 1) := by
  unfold broadcast at h
  split_ifs at h with hsame hleft hright
  · cases h
    exact Or.inl ⟨rfl, hsame.symm⟩
  · cases h
    exact Or.inr (Or.inl ⟨hleft, rfl⟩)
  · cases h
    exact Or.inr (Or.inr ⟨rfl, hright⟩)

lemma broadcast_left (h : broadcast m n = .ok r) : broadcast m r = .ok r := by
  rcases broadcast_cases h with ⟨rfl, -⟩ | ⟨rfl, -⟩ | ⟨rfl, -⟩
  · exact broadcast_self m
  · by_cases hone : 1 = r
    · rw [← hone, broadcast_self]
    · unfold broadcast
      rw [if_neg hone, if_pos rfl]
  · exact broadcast_self m

lemma broadcast_right (h : broadcast m n = .ok r) : broadcast r n = .ok r := by
  rcases broadcast_cases h with ⟨-, rfl⟩ | ⟨-, rfl⟩ | ⟨rfl, rfl⟩
  · exact broadcast_self n
  · exact broadcast_self n
  · by_cases hone : m = 1
    · cases hone
      exact broadcast_self 1
    · unfold broadcast
      rw [if_neg hone, if_neg hone, if_pos rfl]

lemma stretch_length (xs : List β) : stretch xs.length xs = xs := by
  unfold stretch
  split
  · rfl
  · rfl

lemma stretch_singleton (n : Nat) (x : β) : stretch n [x] = List.replicate n x := rfl

lemma length_stretch {xs : List β} (h : xs.length = 1 ∨ xs.length = r) : (stretch r xs).length = r := by
  rcases h with hone | hsame
  · obtain ⟨x, rfl⟩ := List.length_eq_one_iff.mp hone
    rw [stretch_singleton, List.length_replicate]
  · rw [← hsame, stretch_length]

lemma stretch_map (n : Nat) (f : β → γ) (xs : List β) : stretch n (xs.map f) = (stretch n xs).map f := by
  match xs with
  | [] => rfl
  | [x] => rw [stretch_singleton, List.map_replicate]; rfl
  | _ :: _ :: _ => rfl

lemma stretch_replicate {x : β} (h : m = 1 ∨ m = r) :
    stretch r (List.replicate m x) = List.replicate r x := by
  rcases h with rfl | rfl
  · rfl
  · have hself := stretch_length (List.replicate m x)
    rwa [List.length_replicate] at hself

lemma mem_of_mem_stretch {xs : List β} {x : β} (h : x ∈ stretch n xs) : x ∈ xs := by
  match xs with
  | [] => exact h
  | [y] => exact List.mem_singleton.mpr (List.eq_of_mem_replicate h)
  | _ :: _ :: _ => exact h

lemma stretch_zipWith {δ : Type} (n : Nat) (f : β → γ → δ) {xs : List β} {ys : List γ}
    (h : xs.length = ys.length) :
    stretch n (List.zipWith f xs ys) = List.zipWith f (stretch n xs) (stretch n ys) := by
  match xs, ys, h with
  | [], [], _ => rfl
  | [x], [y], _ => simp [stretch]
  | _ :: _ :: _, _ :: _ :: _, _ => rfl

lemma addColumns_eq [Add α] {xs ys : List α} (h : broadcast xs.length ys.length = .ok r) :
    addColumns xs ys = .ok (List.zipWith (· + ·) (stretch r xs) (stretch r ys)) := by
  unfold addColumns
  rw [h]
  rfl

lemma length_stretch_right {xs : List β} (h : broadcast m xs.length = .ok r) :
    (stretch r xs).length = r := by
  apply length_stretch
  rcases broadcast_cases h with ⟨-, hn⟩ | ⟨-, hn⟩ | ⟨-, hn⟩
  · exact Or.inr hn
  · exact Or.inr hn
  · exact Or.inl hn

/-- One number for each row is added to one number. -/
lemma addColumns_replicate [Add α] {rows : List β} (h : broadcast m rows.length = .ok r) (x : α)
    (f : β → α) : addColumns (List.replicate m x) (rows.map f) =
      .ok ((stretch r rows).map fun row => x + f row) := by
  have hrepeated : stretch r (List.replicate m x) = (stretch r rows).map fun _ => x := by
    rw [List.map_const', length_stretch_right h, stretch_replicate]
    rcases broadcast_cases h with ⟨hm, -⟩ | ⟨hm, -⟩ | ⟨hm, -⟩
    · exact Or.inr hm
    · exact Or.inl hm
    · exact Or.inr hm
  rw [addColumns_eq (by rwa [List.length_replicate, List.length_map]), hrepeated,
    stretch_map, List.zipWith_map, List.zipWith_self]

/-- Two numbers for each row are added. -/
lemma addColumns_map [Add α] {rows : List β} (h : broadcast r rows.length = .ok r) (f g : β → α) :
    addColumns ((stretch r rows).map f) (rows.map g) =
      .ok ((stretch r rows).map fun row => f row + g row) := by
  have hlength : ((stretch r rows).map f).length = r := by
    rw [List.length_map, length_stretch_right h]
  have hself := stretch_length ((stretch r rows).map f)
  rw [hlength] at hself
  rw [addColumns_eq (by rwa [hlength, List.length_map]), hself, stretch_map,
    List.zipWith_map, List.zipWith_self]

end Stretching

section Columns

variable {l : Layout} {tables : List TableSize} {g : Grid Int} {columns : List Int}

lemma forM_cons_eq {ε β : Type} (f : β → Except ε Unit) (x : β) (xs : List β) :
    (x :: xs).forM f = f x >>= fun _ => xs.forM f := rfl

/-- A traversal whose results are known succeeds exactly if its steps do. -/
lemma mapM_of_check {ε β γ : Type} {f : β → Except ε γ} {result : β → γ} (xs : List β)
    (h : ∀ x ∈ xs, ∀ y, f x = .ok y → y = result x) :
    xs.mapM f = (xs.forM fun x => (f x).map fun _ => ()).map fun _ => xs.map result := by
  induction xs with
  | nil => rfl
  | cons x rest ih =>
    rw [List.mapM_cons, forM_cons_eq]
    cases hx : f x with
    | error e => rfl
    | ok y =>
      rw [h x List.mem_cons_self y hx, ih fun z hz => h z (List.mem_cons_of_mem _ hz)]
      change _ = Except.map _ (rest.forM fun x => (f x).map fun _ => ())
      cases rest.forM fun x => (f x).map fun _ => () with
      | error e => rfl
      | ok u => rfl

lemma tableFor_eq_ok {column : Int} {i : Nat} {t : TableSize} :
    Model.tableFor tables g column i = .ok t ↔
      tables.find? (·.column == column) = some t ∧ i < g.width ∧ (t.rows = 0 → g.rows = []) := by
  unfold Model.tableFor
  cases tables.find? (·.column == column) with
  | none => simp
  | some s =>
    dsimp only
    split_ifs with hwidth hrows
    · simp only [false_iff]
      rintro ⟨-, hlt, -⟩
      omega
    · simp only [false_iff]
      rintro ⟨hsame, -, hempty⟩
      cases hsame
      simp_all
    · constructor
      · intro hsame
        cases hsame
        exact ⟨rfl, not_le.mp hwidth, by simpa using hrows⟩
      · rintro ⟨hsame, -⟩
        cases hsame
        rfl

/-- Columns that can be looked up are not more than there are columns of indices. -/
lemma length_le_of_checkLookups (h : Model.checkLookups tables columns g = .ok ()) :
    columns.length ≤ g.width := by
  by_contra hlt
  have hi : g.width < columns.length := not_le.mp hlt
  have hmem : (columns[g.width], g.width) ∈ columns.zipIdx :=
    List.mem_zipIdx_iff_getElem?.mpr (List.getElem?_eq_getElem hi)
  obtain ⟨t, ht, -⟩ := map_eq_ok.mp (forM_eq_ok.mp h _ hmem)
  exact Nat.lt_irrefl _ (tableFor_eq_ok.mp ht).2.1

/-- The indices of a row by their places. -/
lemma zipIdx_eq_zip {row : List Int} (h : columns.length ≤ row.length) :
    columns.zipIdx.map (fun p => (p.1, row.getD p.2 0)) = columns.zip row := by
  apply List.ext_getElem
  · simp [h]
  · intro i hi _
    have hrow : i < row.length := by
      rw [List.length_map, List.length_zipIdx] at hi
      omega
    simp [hrow]

end Columns

section Logits

variable [Scalar α] {m : Model α} {b : Batch α}

/-- A batch whose rows of indices are as wide as it says. -/
structure Regular (b : Batch α) : Prop where
  embed : ∀ row ∈ b.embed.rows, row.length = b.embed.width
  wide : ∀ row ∈ b.wide.rows, row.length = b.wide.width

/-- The indices of the embedded columns for `n` records. -/
def embedRecords (l : Layout) (b : Batch α) (n : Nat) : List (List Int) :=
  if l.embed.isEmpty then List.replicate n [] else stretch n b.embed.rows

/-- The indices of the wide columns for `n` records. -/
def wideRecords (l : Layout) (b : Batch α) (n : Nat) : List (List Int) :=
  if l.wide.isEmpty then List.replicate n [] else stretch n b.wide.rows

/-- Wide columns that are read at places of each row are added to the sum of that row. -/
lemma foldlM_addWide {r : Nat} (hr : broadcast r b.wide.rows.length = .ok r) (places : List (Int × Nat))
    (start : List Int → α) :
    places.foldlM (m.addWide b) ((stretch r b.wide.rows).map start) =
      (places.forM fun p => (Model.tableFor m.layout.wideTables b.wide p.1 p.2).map fun _ => ()).map
        fun _ => (stretch r b.wide.rows).map fun row => places.foldl
          (fun sum p => sum + (Model.lookup (m.wideRows p.1) (row.getD p.2 0)).headD 0) (start row) := by
  induction places generalizing start with
  | nil => rfl
  | cons p rest ih =>
    rw [List.foldlM_cons, forM_cons_eq]
    unfold Model.addWide Model.gather
    cases Model.tableFor m.layout.wideTables b.wide p.1 p.2 with
    | error e => rfl
    | ok t =>
      change addColumns _ ((b.wide.rows.map _).map _) >>= _ = Except.map _ (rest.forM _)
      rw [List.map_map, addColumns_map hr, ok_bind]
      exact ih _

/-- The wide sum of a record, read by places. -/
lemma wideSum_eq_places {row : List Int} (h : m.layout.wide.length ≤ row.length) :
    m.wideSum row = m.layout.wide.zipIdx.foldl
      (fun sum p => sum + (Model.lookup (m.wideRows p.1) (row.getD p.2 0)).headD 0)
      (m.parameters.tensor .wideBias).head := by
  unfold Model.wideSum
  rw [← zipIdx_eq_zip h, List.foldl_map]

/-- The wide part of a batch is that of its records. -/
theorem wideSums_eq (hb : Regular b) :
    m.wideSums b = (Model.wideCount m.layout b).map fun n =>
      (wideRecords m.layout b n).map m.wideSum := by
  have hplaces : ∀ row : List Int, m.layout.wide.length ≤ row.length → _ := fun _ =>
    wideSum_eq_places
  unfold Model.wideSums Model.wideCount wideRecords
  cases hwide : m.layout.wide with
  | nil =>
    change Except.ok _ = Except.ok ((List.replicate b.dense.rows.length []).map m.wideSum)
    rw [List.map_replicate, hplaces [] (by rw [hwide]), hwide]
    rfl
  | cons first rest =>
    have hcheck : ∀ columns, Model.checkLookups m.layout.wideTables (first :: columns) b.wide =
        ((Model.tableFor m.layout.wideTables b.wide first 0).map fun _ => ()) >>= fun _ =>
          (columns.zipIdx 1).forM fun p =>
            (Model.tableFor m.layout.wideTables b.wide p.1 p.2).map fun _ => () := fun _ => rfl
    dsimp only
    rw [List.zipIdx_cons, List.foldlM_cons, hcheck []]
    unfold Model.addWide Model.gather
    cases hfirst : Model.tableFor m.layout.wideTables b.wide first 0 with
    | error e => rfl
    | ok t =>
      change (addColumns _ ((b.wide.rows.map _).map _) >>= _) = Except.map _ (broadcast _ _ >>= _)
      cases hcount : broadcast b.dense.rows.length b.wide.rows.length with
      | error e =>
        unfold addColumns
        rw [List.length_replicate, List.length_map, List.length_map, hcount]
        rfl
      | ok n =>
        rw [List.map_map, addColumns_replicate hcount, ok_bind, ok_bind]
        change (rest.zipIdx 1).foldlM (m.addWide b) _ = _
        rw [foldlM_addWide (broadcast_right hcount)]
        have hchecked := hcheck rest
        rw [hfirst] at hchecked
        change _ = (rest.zipIdx 1).forM _ at hchecked
        rw [← hchecked]
        cases hrest : Model.checkLookups m.layout.wideTables (first :: rest) b.wide with
        | error e => rfl
        | ok u =>
          have hlength := length_le_of_checkLookups hrest
          change Except.ok _ = Except.ok ((stretch n b.wide.rows).map m.wideSum)
          congr 1
          apply List.map_congr_left
          intro row hrow
          rw [hplaces row, hwide, List.zipIdx_cons, List.foldl_cons]
          · rfl
          · rw [hwide, hb.wide row (mem_of_mem_stretch hrow)]
            exact hlength

omit [Scalar α] in
/-- Columns that are put side by side go on with what each row has. -/
lemma foldlM_beside (width : Int → Nat) (table : Int → List (List α))
    (rows : List (List α × List Int)) (places : List (Int × Nat)) (w : Nat)
    (start : List α × List Int → List α) :
    (places.map fun p => (⟨width p.1, rows.map fun q =>
      Model.lookup (table p.1) (q.2.getD p.2 0)⟩ : Grid α)).foldlM Grid.beside ⟨w, rows.map start⟩ =
      .ok ⟨w + (places.map fun p => width p.1).sum, rows.map fun q => start q ++
        places.flatMap fun p => Model.lookup (table p.1) (q.2.getD p.2 0)⟩ := by
  induction places generalizing w start with
  | nil => simp [pure, Except.pure]
  | cons p rest ih =>
    rw [List.map_cons, List.foldlM_cons]
    unfold Grid.beside
    dsimp only
    rw [if_pos (by simp), ok_bind, List.zipWith_map, List.zipWith_self]
    refine (ih (w + width p.1) _).trans ?_
    simp only [List.map_cons, List.sum_cons, List.flatMap_cons, List.append_assoc, Nat.add_assoc]

lemma embedWidth_eq_places (l : Layout) :
    Model.embedWidth l = (l.embed.zipIdx.map fun p =>
      ((l.embedTables.find? (·.column == p.1)).map (·.width)).getD 0).sum := by
  unfold Model.embedWidth
  rw [← List.sum_eq_foldl_nat]
  congr 1
  conv_lhs => rw [← List.zipIdx_map_fst 0 l.embed]
  rw [List.map_map]
  rfl

/-- The inputs of the deep part of a record, read by places. -/
lemma deepInputs_eq_places {x : List α} {row : List Int} (h : m.layout.embed.length ≤ row.length) :
    m.deepInputs ⟨x, row, []⟩ = x ++ m.layout.embed.zipIdx.flatMap fun p =>
      Model.lookup (m.embedRows p.1) (row.getD p.2 0) := by
  unfold Model.deepInputs
  rw [← zipIdx_eq_zip h, List.flatMap_map]

/-- The width of the table of an embedded column. -/
def embeddedWidth (l : Layout) (column : Int) : Nat :=
  ((l.embedTables.find? (·.column == column)).map (·.width)).getD 0

/-- What all rows of a batch read at one place. -/
def readAt (m : Model α) (b : Batch α) (p : Int × Nat) : Grid α :=
  ⟨embeddedWidth m.layout p.1, b.embed.rows.map fun row =>
    Model.lookup (m.embedRows p.1) (row.getD p.2 0)⟩

lemma gather_embed {p : Int × Nat} {read : Grid α}
    (h : Model.gather m.layout.embedTables m.embedRows b.embed p.1 p.2 = .ok read) :
    read = readAt m b p := by
  obtain ⟨t, ht, hgrid⟩ := bind_eq_ok.mp h
  unfold readAt embeddedWidth
  rw [(tableFor_eq_ok.mp ht).1]
  exact (Except.ok.inj hgrid).symm

lemma check_gather (p : Int × Nat) :
    ((Model.gather m.layout.embedTables m.embedRows b.embed p.1 p.2).map fun _ => ()) =
      (Model.tableFor m.layout.embedTables b.embed p.1 p.2).map fun _ => () := by
  unfold Model.gather
  cases Model.tableFor m.layout.embedTables b.embed p.1 p.2 with
  | error e => rfl
  | ok t => rfl

/-- If there are as many rows of indices as there are records, then each record gets its embeddings. -/
lemma foldlM_readAt (hb : Regular b) (hrows : b.embed.rows.length = b.dense.rows.length)
    (hwidth : m.layout.embed.length ≤ b.embed.width) :
    (m.layout.embed.zipIdx.map (readAt m b)).foldlM Grid.beside b.dense =
      .ok ⟨b.dense.width + Model.embedWidth m.layout,
        (b.dense.rows.zip b.embed.rows).map fun q => m.deepInputs ⟨q.1, q.2, []⟩⟩ := by
  obtain ⟨rows, hpairs⟩ : ∃ rows, rows = b.dense.rows.zip b.embed.rows := ⟨_, rfl⟩
  have hdense : b.dense = ⟨b.dense.width, rows.map Prod.fst⟩ := by
    rw [hpairs, List.map_fst_zip hrows.ge]
  have hread : readAt m b = fun p => ⟨embeddedWidth m.layout p.1, rows.map fun q =>
      Model.lookup (m.embedRows p.1) (q.2.getD p.2 0)⟩ := by
    have hembed : rows.map Prod.snd = b.embed.rows := by
      rw [hpairs, List.map_snd_zip hrows.le]
    funext p
    unfold readAt
    rw [← hembed, List.map_map]
    rfl
  have hinputs : ∀ q ∈ rows, (q.1 ++ m.layout.embed.zipIdx.flatMap fun p =>
      Model.lookup (m.embedRows p.1) (q.2.getD p.2 0)) = m.deepInputs ⟨q.1, q.2, []⟩ := by
    intro q hq
    have hmem := (List.of_mem_zip (hpairs ▸ hq : (q.1, q.2) ∈ b.dense.rows.zip b.embed.rows)).2
    exact (deepInputs_eq_places (by rwa [hb.embed q.2 hmem])).symm
  rw [← hpairs, hread]
  conv_lhs => rw [hdense]
  rw [foldlM_beside, List.map_congr_left hinputs, embedWidth_eq_places]
  rfl

/-- What the first layer gets for a batch: the inputs of each record, as wide as the columns are. -/
theorem deepGrid_eq (hb : Regular b) :
    m.deepGrid b = (do
      Model.checkLookups m.layout.embedTables m.layout.embed b.embed
      if !m.layout.embed.isEmpty && b.embed.rows.length != b.dense.rows.length then
        throw .tensorShape
      pure ⟨b.dense.width + Model.embedWidth m.layout,
        (b.dense.rows.zip (embedRecords m.layout b b.dense.rows.length)).map fun q =>
          m.deepInputs ⟨q.1, q.2, []⟩⟩) := by
  unfold Model.deepGrid embedRecords
  rw [mapM_of_check _ fun p _ _ => gather_embed, funext check_gather]
  change (Except.map _ (Model.checkLookups m.layout.embedTables m.layout.embed b.embed) >>= _) = _
  cases hcheck : Model.checkLookups m.layout.embedTables m.layout.embed b.embed with
  | error e => rfl
  | ok u =>
    change (m.layout.embed.zipIdx.map (readAt m b)).foldlM Grid.beside b.dense = _ >>= _
    rw [ok_bind]
    by_cases hnone : m.layout.embed.isEmpty = true
    · have hnil := List.isEmpty_iff.mp hnone
      have hinputs : (fun q : List α × List Int => m.deepInputs ⟨q.1, q.2, []⟩) = Prod.fst := by
        funext q
        unfold Model.deepInputs
        rw [hnil]
        exact List.append_nil q.1
      simp only [hnone, Bool.not_true, Bool.false_and, Bool.false_eq_true, if_false, if_true]
      rw [hinputs, List.map_fst_zip (by simp), embedWidth_eq_places, hnil]
      rfl
    · have hsome : m.layout.embed.isEmpty = false := by simpa using hnone
      simp only [hsome, Bool.not_false, Bool.true_and, Bool.false_eq_true, if_false]
      by_cases hrows : b.embed.rows.length = b.dense.rows.length
      · have hself := stretch_length b.embed.rows
        rw [hrows] at hself
        rw [foldlM_readAt hb hrows (length_le_of_checkLookups hcheck), hself, hrows,
          bne_self_eq_false, if_neg Bool.false_ne_true]
        rfl
      · rw [if_pos (by simpa using hrows)]
        obtain ⟨first, rest, hembed⟩ := List.exists_cons_of_ne_nil (by simpa using hnone)
        rw [hembed, List.zipIdx_cons, List.map_cons, List.foldlM_cons]
        unfold Grid.beside readAt
        rw [if_neg (by simpa using Ne.symm hrows)]
        rfl

/-- A layer on all rows is the layer on each row. -/
lemma applyAll_eq (layer : Layer α) {size : LayerSize} {x : Grid α} (h : x.width = size.inputs) :
    layer.applyAll size x = .ok ⟨size.outputs, x.rows.map layer.apply⟩ := by
  unfold Layer.applyAll
  rw [if_pos h]
  simp only [List.map_map]
  congr 3
  funext row
  unfold Layer.apply Layer.linear
  simp only [Function.comp_apply, List.zipWith_map_left]

/-- Layers on all rows are the layers on each row. -/
theorem foldlM_applyAll (m : Model α) (position inputs : Nat) (hidden : List (Nat × Activation))
    (x : Grid α) :
    ((m.layersFrom position (Layout.layersFrom inputs hidden)).zip
      (Layout.layersFrom inputs hidden)).foldlM (fun x p => p.1.applyAll p.2 x) x =
      if x.width = inputs then
        .ok ⟨1, x.rows.map fun row =>
          (m.layersFrom position (Layout.layersFrom inputs hidden)).foldl (fun x l => l.apply x) row⟩
      else .error .tensorShape := by
  induction hidden generalizing position inputs x with
  | nil =>
    rw [Layout.layersFrom, Model.layersFrom, Model.layersFrom, List.zip_cons_cons, List.foldlM_cons]
    split_ifs with hx
    · rw [applyAll_eq _ hx]
      rfl
    · unfold Layer.applyAll
      rw [if_neg hx]
      rfl
  | cons p rest ih =>
    rw [Layout.layersFrom, Model.layersFrom, List.zip_cons_cons, List.foldlM_cons]
    split_ifs with hx
    · rw [applyAll_eq _ hx, ok_bind, ih, if_pos rfl, List.map_map]
      rfl
    · unfold Layer.applyAll
      rw [if_neg hx]
      rfl

omit [Scalar α] in
lemma broadcast_wideCount {l : Layout} {n : Nat} (h : Model.wideCount l b = .ok n) :
    broadcast b.dense.rows.length n = .ok n ∧ (wideRecords l b n).length = n := by
  unfold Model.wideCount at h
  unfold wideRecords
  cases hwide : l.wide with
  | nil =>
    rw [hwide] at h
    cases h
    exact ⟨broadcast_self _, by simp⟩
  | cons first rest =>
    rw [hwide] at h
    obtain ⟨_, -, h⟩ := bind_eq_ok.mp h
    obtain ⟨_, hcount, h⟩ := bind_eq_ok.mp h
    obtain ⟨_, -, h⟩ := bind_eq_ok.mp h
    cases h
    exact ⟨broadcast_left hcount, length_stretch_right hcount⟩

omit [Scalar α] in
/-- A deep number and a wide number for each record. -/
lemma zipWith_records {β : Type} [Add β] (deep : List α → List Int → β) (wide : List Int → β)
    (dense : List (List α)) (embed indices : List (List Int)) :
    List.zipWith (· + ·) ((dense.zip embed).map fun q => deep q.1 q.2) (indices.map wide) =
      (dense.zip (embed.zip indices)).map fun p => deep p.1 p.2.1 + wide p.2.2 := by
  rw [List.zipWith_map]
  induction dense generalizing embed indices with
  | nil => rfl
  | cons x xs ih =>
    match embed, indices with
    | [], _ => rfl
    | _ :: _, [] => rfl
    | e :: es, w :: ws =>
      simp only [List.zip_cons_cons, List.zipWith_cons_cons, List.map_cons, ih]

omit [Scalar α] in
/-- The deep part and the wide part of a batch are added record by record. -/
lemma addColumns_records {β : Type} [Add β] {l : Layout} {n : Nat}
    (hcount : Model.wideCount l b = .ok n)
    (hrows : l.embed.isEmpty = false → b.embed.rows.length = b.dense.rows.length)
    (deep : List α → List Int → β) (wide : List Int → β) :
    addColumns ((b.dense.rows.zip (embedRecords l b b.dense.rows.length)).map fun q => deep q.1 q.2)
      ((wideRecords l b n).map wide) =
      .ok ((Model.records l b n).map fun r => deep r.dense r.embed + wide r.wide) := by
  obtain ⟨hbroadcast, hlength⟩ := broadcast_wideCount hcount
  have hsize : (embedRecords l b b.dense.rows.length).length = b.dense.rows.length := by
    unfold embedRecords
    split_ifs with hnone
    · rw [List.length_replicate]
    · exact length_stretch (Or.inr (hrows (by simpa using hnone)))
  have hembed : stretch n (embedRecords l b b.dense.rows.length) = embedRecords l b n := by
    unfold embedRecords
    split_ifs with hnone
    · apply stretch_replicate
      rcases broadcast_cases hbroadcast with ⟨h, -⟩ | ⟨h, -⟩ | ⟨h, -⟩
      · exact Or.inr h
      · exact Or.inl h
      · exact Or.inr h
    · have hself := stretch_length b.embed.rows
      rw [hrows (by simpa using hnone)] at hself
      rw [hself]
  have hwide : stretch n ((wideRecords l b n).map wide) = (wideRecords l b n).map wide := by
    have hself := stretch_length ((wideRecords l b n).map wide)
    rwa [List.length_map, hlength] at hself
  have hpairs : stretch n (b.dense.rows.zip (embedRecords l b b.dense.rows.length)) =
      (stretch n b.dense.rows).zip (embedRecords l b n) := by
    rw [← hembed]
    exact stretch_zipWith n Prod.mk hsize.symm
  rw [addColumns_eq (r := n), stretch_map, hwide, hpairs, zipWith_records]
  · unfold Model.records
    rw [List.map_map]
    rfl
  · rwa [List.length_map, List.length_zip, hsize, Nat.min_self, List.length_map, hlength]

/-- A batch is computed row by row: its logits are those of its records, and it is refused exactly if
its inputs do not fit the layout. -/
theorem logits_eq (hb : Regular b) :
    m.logits b = (Model.resultCount m.layout b).map fun n =>
      (Model.records m.layout b n).map m.logit := by
  have hlayers : ∀ x : Grid α,
      (m.layers.zip m.layout.layers).foldlM (fun x p => p.1.applyAll p.2 x) x =
        if x.width = m.layout.inputs then
          .ok ⟨1, x.rows.map fun row => m.layers.foldl (fun x l => l.apply x) row⟩
        else .error .tensorShape := foldlM_applyAll m 0 m.layout.inputs m.layout.hidden
  unfold Model.logits Model.resultCount
  rw [wideSums_eq hb, deepGrid_eq hb]
  cases hcount : Model.wideCount m.layout b with
  | error e => rfl
  | ok n =>
    change ((_ : Except Error (Grid α)) >>= _) = Except.map _ (_ >>= _)
    cases Model.checkLookups m.layout.embedTables m.layout.embed b.embed with
    | error e => rfl
    | ok u =>
      rw [ok_bind, ok_bind]
      by_cases hrows : (!m.layout.embed.isEmpty && b.embed.rows.length != b.dense.rows.length) = true
      · rw [if_pos hrows, if_pos hrows]
        rfl
      · rw [if_neg hrows, if_neg hrows]
        change (m.layers.zip m.layout.layers).foldlM (fun x p => p.1.applyAll p.2 x)
          (⟨_, _⟩ : Grid α) >>= _ = _
        rw [hlayers]
        by_cases hwidth : b.dense.width + Model.embedWidth m.layout = m.layout.inputs
        · have hsame : m.layout.embed.isEmpty = false →
              b.embed.rows.length = b.dense.rows.length := by
            intro hsome
            simpa [hsome] using hrows
          rw [if_pos hwidth, if_neg (by simpa using hwidth), ok_bind, List.map_map, List.map_map]
          exact addColumns_records hcount hsame
            (fun x row => Model.deepSum m.layers (m.deepInputs ⟨x, row, []⟩)) m.wideSum
        · rw [if_neg hwidth, if_pos (by simpa using hwidth)]
          rfl

end Logits

end WideDeep.Proofs
