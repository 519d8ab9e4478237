/-!
# Notices

What is worth telling although the work goes on.
-/

namespace WideDeep

inductive Notice where
  | manyInvalidTags
  | versionDiffers (version : Int)
  | roundFailed (iteration : Nat)
  | noCheckpoint
  | checkpointUnusable
  deriving DecidableEq

namespace Notice

def line : Notice → String
  | manyInvalidTags =>
    "ERROR: Too many invalid tags, please check you configuration on positive tags and " ++
      "negative tags."
  | versionDiffers version =>
    s!"WARNING: Model format version {version} differs from 1, reading anyway"
  | roundFailed iteration =>
    s!"ERROR: Aggregation failed at iteration {iteration}, master stopped"
  | noCheckpoint =>
    "WARNING: Continuous training enabled but no checkpoint path set, do random initialization."
  | checkpointUnusable =>
    "WARNING: Continuous training enabled but existing model load failed, do random " ++
      "initialization."

end Notice

end WideDeep
