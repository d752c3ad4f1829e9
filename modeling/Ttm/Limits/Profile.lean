/-!
Where the bounds of a build come from.
-/

namespace Ttm.Limits

structure Profile where
  name : String := "development"
  directory : String := "config"
  deriving DecidableEq, Repr

def Profile.origin (p : Profile) : String := s!"Generated from {p.directory}/{p.name}.toml"

end Ttm.Limits
