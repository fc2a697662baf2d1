import Bustub.Replacer.Basic
import Bustub.Replacer.Scan
import Bustub.Replacer.Invariant
import Bustub.Replacer.Refinement
import Bustub.Replacer.LRU
import Bustub.HashTable.Basic
import Bustub.HashTable.Invariant
import Bustub.HashTable.Refinement
import Bustub.HashTable.Split
import Bustub.HashTable.InsertLoop
import Bustub.HashTable.Shape
import Bustub.HashTable.DepthBound
import Bustub.HashTable.DeepDirectory
import Bustub.BufferPool.Basic
import Bustub.BufferPool.Invariant
import Bustub.BufferPool.Frames
import Bustub.BufferPool.PageIds
import Bustub.BufferPool.DiskFaults
import Bustub.BufferPool.History
import Bustub.BufferPool.Durability
import Bustub.BufferPool.PageTable
import Bustub.BufferPool.TableDepth
