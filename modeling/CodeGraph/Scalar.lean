namespace CodeGraph

/-! Numbers to compute scores with.  Counts are cast to them. -/

instance instNatCastFloat : NatCast Float where
  natCast := Float.ofNat

end CodeGraph
